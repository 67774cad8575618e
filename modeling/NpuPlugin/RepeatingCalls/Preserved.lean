/-
This file proves when the rewritten function uses what the original one does: an operation of the
original one corresponds to the copies of its inputs, the operation itself, and the copies of its
outputs.
-/

import NpuPlugin.RepeatingCalls.Legalized
import Mathlib.Tactic.IntervalCases

namespace NpuPlugin.RepeatingCalls

open Function List Nat

variable {Content : Type} {prog : Program} {order : prog.CalleeOrder}
  {meaning : Meaning Content} {memory : Location → Content} {final : Rewriting}
  {machine : Machine Content} {left : Left Content} {place : Nat}

/-! ### Runs -/

theorem executeAll_append (opOf : OpId → Op) (first second : List OpId) :
    executeAll meaning opOf (first ++ second) machine =
      executeAll meaning opOf second (executeAll meaning opOf first machine) :=
  foldl_append

variable {id : OpId} {source target : Value} {places : Value → Place}

theorem execute_copy {location : Location} (isTarget : machine.places target = ⟨location, []⟩) :
    execute meaning machine id ⟨.copy, [source], [target]⟩ =
      { places := addAliases machine.places id ⟨.copy, [source], [target]⟩
        memory := Function.update machine.memory location (machine.read meaning source) } := by
  unfold execute writeOutputs
  simp [Op.writes, Op.reads, Op.result, isTarget, writeTo, writeThrough]

variable {value : Value}

theorem addAliases_of_ne {op : Op} (other : ∀ number, value ≠ .result id number) :
    addAliases places id op value = places value := by
  cases value with
  | buffer => rfl
  | commonArg => rfl
  | result owner number =>
    rw [addAliases, if_neg]
    rintro rfl
    exact other number rfl

theorem addAliases_copy :
    addAliases places id ⟨.copy, [source], [target]⟩ (.result id 0) = places target := by
  simp [addAliases, Op.source]

/-! ### The copies of the inputs -/

structure Copied (prog : Program) (order : prog.CalleeOrder) (meaning : Meaning Content)
    (place : Nat) (inputs : List Nat) (machine after : Machine Content) : Prop where
  places : ∀ value, (∀ input number, value ≠ .result (.copyIn place input) number) →
    after.places value = machine.places value
  memory : ∀ location, (∀ input, location ≠ .common (prog.calleeOf place) (.input input)) →
    after.memory location = machine.memory location
  copy : ∀ input ∈ inputs, after.places (.result (.copyIn place input) 0) =
    ⟨.common (prog.calleeOf place) (.input input), []⟩
  content : ∀ input ∈ inputs, ∀ value, (prog.opAt place).inputs[input]? = some value →
    after.memory (.common (prog.calleeOf place) (.input input)) =
      machine.read meaning (prog.replacedValue (prog.sites order) place value)

variable {slot : Slot} {value : Value}

theorem Placed.replacedValue_apart (placed : Placed prog order place machine.places)
    (isOperand : (prog.opAt place).operand slot = some value)
    (notDone : ∀ output, slot = .output output → (place, slot) ∉ prog.sites order) :
    (∀ call input number, prog.replacedValue (prog.sites order) place value ≠
        .result (.copyIn call input) number) ∧
      ∀ callee input,
        (machine.places (prog.replacedValue (prog.sites order) place value)).location ≠
          .common callee (.input input) := by
  obtain ⟨inside, defined⟩ := Program.definedBefore_of_mem (Program.mem_of_operand isOperand)
  obtain ⟨root, isRoot⟩ := Program.exists_root inside.le defined
  constructor
  · intro call input number
    rcases Program.replacedValue_eq_or (prog.sites order) place value with
      same | ⟨other, output, -, -, -, copied⟩
    · rw [same]
      rintro rfl
      exact defined
    · rw [copied]
      nofun
  · intro callee input
    rw [placed.replacedValue isOperand notDone]
    split
    · split
      · nofun
      · rw [isRoot]
        nofun
    · rw [isRoot]
      nofun

variable {inputs : List Nat}

theorem Copied.read {after : Machine Content}
    (copied : Copied prog order meaning place inputs machine after)
    (placed : Placed prog order place machine.places)
    (isOperand : (prog.opAt place).operand slot = some value)
    (notDone : ∀ output, slot = .output output → (place, slot) ∉ prog.sites order) :
    after.read meaning (prog.replacedValue (prog.sites order) place value) =
      machine.read meaning (prog.replacedValue (prog.sites order) place value) := by
  obtain ⟨noCopy, apart⟩ := placed.replacedValue_apart isOperand notDone
  unfold Machine.read
  rw [copied.places _ (noCopy place), copied.memory _ (apart _)]

section

variable (inv : RewritingInv prog order (prog.sites order) final)
include inv

theorem copied_executeAll (placed : Placed prog order place machine.places) (inputs : List Nat)
    (done : ∀ input ∈ inputs, (place, .input input) ∈ prog.sites order) :
    Copied prog order meaning place inputs machine
      (executeAll meaning final.opOf (inputs.map (.copyIn place)) machine) := by
  induction inputs using reverseRecOn with
  | nil =>
    exact ⟨fun _ _ => rfl, fun _ _ => rfl, forall_mem_nil _,
      forall_mem_nil _⟩
  | append_singleton inputs input ih =>
    have copied := ih (forall_mem_append.mp done).1
    have isSite := done input (mem_append_right _ mem_cons_self)
    obtain ⟨callee, -, isOperand, -⟩ := Program.mem_sites.mp isSite
    obtain ⟨value, isOperand⟩ := Option.ne_none_iff_exists'.mp isOperand
    have isInput : (prog.opAt place).inputs[input]? = some value := isOperand
    rw [map_append, executeAll_append]
    generalize executeAll meaning final.opOf (inputs.map (.copyIn place)) machine = after at copied
    have isTarget : after.places (.commonArg (prog.calleeOf place) (.input input)) =
        ⟨.common (prog.calleeOf place) (.input input), []⟩ := by
      rw [copied.places _ (fun _ _ => Value.noConfusion), placed.commonArg]
    show Copied prog order meaning place _ machine
      (execute meaning after (.copyIn place input) (final.opOf (.copyIn place input)))
    rw [inv.copyIn place input value isSite isInput, execute_copy isTarget,
      copied.read placed isOperand nofun]
    refine ⟨?_, ?_, ?_, ?_⟩
    · intro other apart
      exact (addAliases_of_ne (apart input)).trans (copied.places other apart)
    · intro location apart
      exact (update_of_ne (apart input) _ _).trans (copied.memory location apart)
    · intro other mem
      dsimp only
      by_cases same : other = input
      · rw [same, addAliases_copy, isTarget]
      · rw [addAliases_of_ne]
        · exact copied.copy other ((mem_append.mp mem).resolve_right (by simpa using same))
        · rintro number ⟨⟩
          exact same rfl
    · intro other mem otherValue isOther
      dsimp only
      by_cases same : other = input
      · subst same
        obtain rfl : value = otherValue := Option.some.inj (isInput.symm.trans isOther)
        rw [update_self]
      · rw [update_of_ne]
        · exact copied.content other
            ((mem_append.mp mem).resolve_right (by simpa using same)) otherValue isOther
        · rintro ⟨⟩
          exact same rfl

theorem before_eq (place : Nat) :
    ∃ inputs : List Nat, final.before place = inputs.map (.copyIn place) ∧
      ∀ input, input ∈ inputs ↔ (place, .input input) ∈ prog.sites order := by
  refine ⟨_, inv.before place, fun input => ?_⟩
  rw [mem_filter, decide_eq_true_eq, mem_range]
  refine and_iff_right_of_imp fun isSite => ?_
  obtain ⟨callee, -, isOperand, -⟩ := Program.mem_sites.mp isSite
  by_contra outside
  exact isOperand (getElem?_eq_none (not_lt.mp outside))

end

/-! ### The operation -/

theorem not_mem_sites_of_view {code : Nat} (isView : (prog.opAt place).kind = .view code)
    (slot : Slot) : (place, slot) ∉ prog.sites order := by
  intro isSite
  obtain ⟨callee, isCall, -⟩ := Program.mem_sites.mp isSite
  rw [Program.callee_eq_some, isView] at isCall
  cases isCall

theorem Copied.contents {after : Machine Content}
    (copied : Copied prog order meaning place inputs machine after)
    (all : ∀ input, input ∈ inputs ↔ (place, .input input) ∈ prog.sites order)
    (placed : Placed prog order place machine.places) (agrees : Agrees machine.memory left) :
    (prog.rewrittenOp (prog.sites order) place).reads.map (after.read meaning) =
      (prog.opAt place).reads.map
        fun value => prog.contentLeft order meaning place value left := by
  have each : ((prog.opAt place).inputs.mapIdx
      (prog.rewrittenInput (prog.sites order) place)).map (after.read meaning) =
        (prog.opAt place).inputs.map
          fun value => prog.contentLeft order meaning place value left := by
    refine ext_getElem (by simp) fun input inside bound => ?_
    rw [length_map] at bound
    rw [getElem_map, getElem_map, getElem_mapIdx]
    have isOperand : (prog.opAt place).operand (.input input) =
        some ((prog.opAt place).inputs[input]) :=
      getElem?_eq_getElem _
    have isLeft : machine.read meaning (prog.replacedValue _ place _) = _ :=
      placed.read agrees isOperand nofun
    unfold Program.rewrittenInput
    split
    · rename_i isSite
      have mem := (all input).mpr isSite
      rw [← isLeft, ← copied.content input mem _ isOperand]
      unfold Machine.read
      rw [copied.copy input mem]
      rfl
    · rw [copied.read placed isOperand nofun]
      exact isLeft
  unfold Op.reads Program.rewrittenOp
  dsimp only
  split
  · rfl
  · exact each

section

variable {call number : Nat} {value : Value} (isCall : prog.callee call ≠ none)
  (isOutput : (prog.opAt call).outputs[number]? = some value)
include isCall isOutput

theorem source_of_output : (prog.opAt call).source number = some (value, []) := by
  obtain ⟨callee, isCallee⟩ := Option.ne_none_iff_exists'.mp isCall
  unfold Op.source
  rw [Program.callee_eq_some.mp isCallee]
  rw [isOutput]
  rfl

theorem places_of_output : prog.places (.result (.original call) number) = prog.places value := by
  rw [Program.places_result (source_of_output isCall isOutput), append_nil]

end

theorem callee_ne_none {call : Nat} (isSite : (call, slot) ∈ prog.sites order) :
    prog.callee call ≠ none := by
  obtain ⟨callee, isCall, -⟩ := Program.mem_sites.mp isSite
  rw [isCall]
  nofun

theorem Placed.indirect (placed : Placed prog order place machine.places) {slot : Slot}
    (isOperand : (prog.opAt place).operand slot = some value)
    (notDone : ∀ output, slot = .output output → (place, slot) ∉ prog.sites order)
    (indirect : ∀ call number, value = .result (.original call) number →
      ¬ prog.IsDirect order place call number) :
    machine.places (prog.replacedValue (prog.sites order) place value) =
      prog.places value := by
  rw [placed.replacedValue isOperand notDone]
  cases value with
  | buffer => rfl
  | commonArg => rfl
  | result op number =>
    cases op with
    | copyIn => rfl
    | copyOut => rfl
    | original call => exact if_neg (indirect call number rfl)

theorem Placed.output (placed : Placed prog order place machine.places)
    (whole : WholeOutputs prog order) {output : Nat}
    (isOutput : (prog.opAt place).outputs[output]? = some value)
    (notDone : (place, .output output) ∉ prog.sites order) :
    machine.places (prog.replacedValue (prog.sites order) place value) =
      prog.places value := by
  have isOperand : (prog.opAt place).operand (.output output) = some value := isOutput
  refine placed.indirect isOperand (fun other same => Slot.output.inj same ▸ notDone) ?_
  rintro call number rfl
  exact whole.indirect place output call number notDone isOutput

theorem Agrees.writeOutputs (agrees : Agrees machine.memory left)
    (placed : Placed prog order place machine.places) (whole : WholeOutputs prog order)
    (contents : List Content) :
    Agrees (writeOutputs meaning (prog.rewrittenOp (prog.sites order) place) contents
        machine.places machine.memory)
      ((prog.opAt place).writes.zipIdx.foldl
        (prog.leaveOutput order meaning place contents) left) := by
  have sameWrites : (prog.rewrittenOp (prog.sites order) place).writes.zipIdx =
      (prog.opAt place).writes.zipIdx.map fun output =>
        (prog.rewrittenOutput (prog.sites order) place output.2 output.1, output.2) := by
    unfold Op.writes Program.rewrittenOp
    dsimp only
    split
    · rfl
    · refine ext_getElem (by simp) fun number _ _ => ?_
      simp
  unfold RepeatingCalls.writeOutputs
  rw [sameWrites, foldl_map]
  refine foldl_rel (r := Agrees) agrees ?_
  rintro ⟨value, output⟩ isWritten memory left agrees
  have isOutput : (prog.opAt place).outputs[output]? = some value := by
    have found := mem_zipIdx_iff_getElem?.mp isWritten
    unfold Op.writes at found
    split at found
    · exact absurd found nofun
    · exact found
  unfold Program.leaveOutput
  dsimp only
  rw [show (prog.rewrittenOp (prog.sites order) place).result meaning contents output =
    (prog.opAt place).result meaning contents output from rfl]
  cases (prog.opAt place).result meaning contents output with
  | none => exact agrees
  | some written =>
    dsimp only
    unfold Program.rewrittenOutput
    split
    · rename_i isSite
      rw [placed.commonArg]
      refine ⟨fun number => agrees.roots number, fun callee other => ?_⟩
      unfold writeTo Left.give writeThrough
      dsimp only
      by_cases sameCallee : callee = prog.calleeOf place
      · by_cases sameOutput : other = output
        · rw [sameCallee, sameOutput, update_self, update_self, update_self]
        · rw [sameCallee, update_self, update_of_ne sameOutput, update_of_ne, agrees.given]
          rintro ⟨⟩
          exact sameOutput rfl
      · rw [update_of_ne sameCallee, update_of_ne, agrees.given]
        rintro ⟨⟩
        exact sameCallee rfl
    · rename_i notDone
      rw [placed.output whole isOutput notDone]
      have isOperand : (prog.opAt place).operand (.output output) = some value := isOutput
      obtain ⟨inside, defined⟩ := Program.definedBefore_of_mem (Program.mem_of_operand isOperand)
      obtain ⟨root, isRoot⟩ := Program.exists_root inside.le defined
      unfold writeTo
      rw [isRoot]
      refine ⟨fun number => ?_, fun callee other => agrees.given callee other⟩
      dsimp only
      by_cases sameRoot : number = root
      · rw [sameRoot, update_self, update_self, agrees.roots]
      · rw [update_of_ne fun same => sameRoot (Location.root.inj same),
          update_of_ne fun same => sameRoot (Location.root.inj same), agrees.roots]

/-! ### The copies of the outputs -/

section

variable {after : Machine Content} (copied : Copied prog order meaning place inputs machine after)
include copied

theorem Copied.placed (placed : Placed prog order place machine.places) :
    Placed prog order place after.places where
  buffer number := (copied.places _ fun _ _ => Value.noConfusion).trans (placed.buffer number)
  commonArg callee slot :=
    (copied.places _ fun _ _ => Value.noConfusion).trans (placed.commonArg callee slot)
  result call number defined :=
    (copied.places (.result (.original call) number) fun _ _ => nofun).trans
      (placed.result call number defined)
  copyOut call number before isSite kept :=
    (copied.places (.result (.copyOut call number) 0) fun _ _ => nofun).trans
      (placed.copyOut call number before isSite kept)

theorem Copied.agrees (agrees : Agrees machine.memory left) : Agrees after.memory left where
  roots number := (copied.memory _ fun _ => Location.noConfusion).trans (agrees.roots number)
  given callee output :=
    (copied.memory (.common callee (.output output)) fun _ => nofun).trans
      (agrees.given callee output)

end

/-- The places of values after an operation and some copies of its outputs. -/
structure Ended (prog : Program) (order : prog.CalleeOrder) (place : Nat)
    (outputs : List Nat) (places : Value → Place) : Prop where
  buffer : ∀ number, places (.buffer number) = ⟨.root number, []⟩
  commonArg : ∀ callee slot, places (.commonArg callee slot) = ⟨.common callee slot, []⟩
  result : ∀ call number,
    (Value.result (.original call) number).DefinedBefore prog.ops (place + 1) →
      places (.result (.original call) number) =
        if (call, .output number) ∈ prog.sites order then
          ⟨.common (prog.calleeOf call) (.output number), []⟩
        else prog.places (.result (.original call) number)
  copyOut : ∀ call number, call < place ∨ call = place ∧ number ∈ outputs →
    (call, .output number) ∈ prog.sites order → prog.isKept order call number = true →
      places (.result (.copyOut call number) 0) = prog.places (.result (.original call) number)

theorem Placed.ended (placed : Placed prog order place machine.places)
    (whole : WholeOutputs prog order) :
    Ended prog order place [] (addAliases machine.places (.original place)
      (prog.rewrittenOp (prog.sites order) place)) where
  buffer := placed.buffer
  commonArg := placed.commonArg
  result call number := by
    rintro ⟨before, below⟩
    by_cases isThis : call = place
    · subst isThis
      obtain ⟨value, views, isSource⟩ :=
        Program.exists_source (prog.opAt call) (Program.numResults_opAt ▸ below)
      rw [addAliases, if_pos rfl, Program.places_result isSource]
      unfold Op.source at isSource
      unfold Op.source Program.rewrittenOp
      dsimp only
      split at isSource
      · rename_i code isView
        obtain ⟨_, isInput, same⟩ := Option.map_eq_some_iff.mp isSource
        cases same
        have isOperand : (prog.opAt call).operand (.input number) = some value := isInput
        rw [getElem?_mapIdx, isInput, if_neg (not_mem_sites_of_view isView _)]
        dsimp only [Option.map_some]
        unfold Program.rewrittenInput
        rw [if_neg (not_mem_sites_of_view isView _),
          placed.indirect isOperand fun _ impossible => by cases impossible]
        rintro earlier result rfl ⟨isSite, repeats⟩
        obtain ⟨callee, isCall⟩ := Option.ne_none_iff_exists'.mp (callee_ne_none isSite)
        rw [← repeats, Program.callee_eq_some, isView] at isCall
        cases isCall
      · obtain ⟨_, isOutput, same⟩ := Option.map_eq_some_iff.mp isSource
        cases same
        rw [getElem?_mapIdx, isOutput]
        dsimp only [Option.map_some]
        unfold Program.rewrittenOutput
        split
        · rw [placed.commonArg]
          rfl
        · rename_i notDone
          rw [placed.output whole isOutput notDone]
    · have other : OpId.original call ≠ .original place := fun same =>
        isThis (OpId.original.inj same)
      rw [addAliases, if_neg other]
      exact placed.result call number ⟨by omega, below⟩
  copyOut call number before isSite kept := by
    rw [addAliases_of_ne]
    · exact placed.copyOut call number (before.resolve_right (by simp)) isSite kept
    · intro other impossible
      cases impossible

section

variable (inv : RewritingInv prog order (prog.sites order) final) (whole : WholeOutputs prog order)
include inv whole

theorem Ended.executeAll (ended : Ended prog order place [] machine.places)
    (agrees : Agrees machine.memory left) (outputs : List Nat)
    (done : ∀ output ∈ outputs, (place, .output output) ∈ prog.sites order) :
    Ended prog order place outputs
        (executeAll meaning final.opOf (outputs.map (.copyOut place)) machine).places ∧
      Agrees (executeAll meaning final.opOf (outputs.map (.copyOut place)) machine).memory
        (outputs.foldl (prog.copyKept place) left) := by
  induction outputs using reverseRecOn with
  | nil => exact ⟨ended, agrees⟩
  | append_singleton outputs output ih =>
    obtain ⟨ended, agrees⟩ := ih (forall_mem_append.mp done).1
    have isSite := done output (mem_append_right _ mem_cons_self)
    obtain ⟨callee, -, isOutput, -⟩ := Program.mem_sites.mp isSite
    obtain ⟨value, isOperand⟩ := Option.ne_none_iff_exists'.mp isOutput
    have isOutput : (prog.opAt place).outputs[output]? = some value := isOperand
    obtain ⟨inside, defined⟩ := Program.definedBefore_of_mem (Program.mem_of_operand isOperand)
    obtain ⟨root, isRoot⟩ := Program.exists_root inside.le defined
    rw [map_append, executeAll_append, foldl_append]
    generalize RepeatingCalls.executeAll meaning final.opOf (outputs.map (.copyOut place)) machine =
      after at ended agrees
    generalize outputs.foldl (prog.copyKept place) left = leftBefore at agrees
    have isTarget : after.places (prog.getSingleRoot value) = ⟨.root root, []⟩ := by
      unfold Program.getSingleRoot
      rw [isRoot]
      exact ended.buffer root
    have isResult : (Value.result (.original place) output).DefinedBefore prog.ops
        (place + 1) :=
      ⟨lt_succ_self place, Program.numResults_opAt ▸
        (Program.mem_of_source (source_of_output (callee_ne_none isSite) isOutput)).1⟩
    have isRead : after.read meaning (.result (.original place) output) =
        leftBefore.given (prog.calleeOf place) output := by
      unfold Machine.read
      rw [ended.result place output isResult, if_pos isSite]
      exact agrees.given _ _
    show Ended prog order place _ (execute meaning after (.copyOut place output)
        (final.opOf (.copyOut place output))).places ∧
      Agrees (execute meaning after (.copyOut place output)
        (final.opOf (.copyOut place output))).memory (prog.copyKept place leftBefore output)
    rw [inv.copyOut place output value isSite isOutput, execute_copy isTarget, isRead]
    refine ⟨⟨?_, ?_, ?_, ?_⟩, ?_⟩
    · exact ended.buffer
    · exact ended.commonArg
    · intro call number defined
      dsimp only
      rw [addAliases_of_ne]
      · exact ended.result call number defined
      · nofun
    · intro call number before isSite kept
      dsimp only
      by_cases isThis : call = place ∧ number = output
      · obtain ⟨rfl, rfl⟩ := isThis
        rw [addAliases_copy, isTarget, places_of_output (callee_ne_none isSite) isOutput]
        exact congrArg₂ Place.mk isRoot.symm (whole.whole call number value isSite isOutput).symm
      · rw [addAliases_of_ne]
        · refine ended.copyOut call number (before.imp_right fun isHere => ?_) isSite kept
          refine ⟨isHere.1, (mem_append.mp isHere.2).resolve_right fun last => ?_⟩
          exact isThis ⟨isHere.1, mem_singleton.mp last⟩
        · rintro other ⟨⟩
          exact isThis ⟨rfl, rfl⟩
    · unfold Program.copyKept
      rw [isOutput]
      dsimp only
      rw [isRoot]
      refine ⟨fun number => ?_, fun callee other => agrees.given callee other⟩
      dsimp only
      by_cases sameRoot : number = root
      · rw [sameRoot, update_self, update_self]
      · rw [update_of_ne fun same => sameRoot (Location.root.inj same),
          update_of_ne fun same => sameRoot (Location.root.inj same), agrees.roots]

/-! ### The run -/

/-- What becomes of an operation. -/
def Rewriting.segment (state : Rewriting) (place : Nat) : List OpId :=
  state.before place ++ .original place :: state.after place

theorem executeAll_segment (placed : Placed prog order place machine.places)
    (agrees : Agrees machine.memory left) : (prog.rewrittenOp (prog.sites order) place).reads.map
        ((executeAll meaning final.opOf (final.before place) machine).read meaning) =
      (prog.opAt place).reads.map
        (fun value => prog.contentLeft order meaning place value left) ∧
      Placed prog order (place + 1)
        (executeAll meaning final.opOf (final.segment place) machine).places ∧
      Agrees (executeAll meaning final.opOf (final.segment place) machine).memory
        (prog.leave order meaning place ((prog.opAt place).reads.map
          fun value => prog.contentLeft order meaning place value left) left) := by
  obtain ⟨inputs, isBefore, all⟩ := before_eq inv place
  have copied : Copied prog order meaning place inputs machine _ :=
    copied_executeAll inv placed inputs fun input mem => (all input).mp mem
  have isAfter : final.after place =
      (prog.keptCopies order place).reverse.map (.copyOut place) := by
    rw [inv.after, map_reverse]
    rfl
  unfold Rewriting.segment
  rw [executeAll_append, isBefore, isAfter]
  generalize executeAll meaning final.opOf (inputs.map (.copyIn place)) machine = after at copied
  have contents := copied.contents all placed agrees
  refine ⟨contents, ?_⟩
  have kept : ∀ output, output ∈ (prog.keptCopies order place).reverse ↔
      (place, .output output) ∈ prog.sites order ∧
        prog.isKept order place output = true := by
    intro output
    unfold Program.keptCopies
    rw [mem_reverse, mem_filter, decide_eq_true_eq, mem_range]
    refine and_iff_right_of_imp fun isCopied => ?_
    obtain ⟨callee, -, isOutput, -⟩ := Program.mem_sites.mp isCopied.1
    by_contra outside
    exact isOutput (getElem?_eq_none (not_lt.mp outside))
  have ended : Ended prog order place []
      (execute meaning after (.original place) (final.opOf (.original place))).places := by
    rw [inv.original]
    exact (copied.placed placed).ended whole
  have written : Agrees
      (execute meaning after (.original place) (final.opOf (.original place))).memory
      ((prog.opAt place).writes.zipIdx.foldl (prog.leaveOutput order meaning place
        ((prog.opAt place).reads.map
          fun value => prog.contentLeft order meaning place value left)) left) := by
    rw [inv.original, ← contents]
    exact (copied.agrees agrees).writeOutputs (copied.placed placed) whole _
  obtain ⟨allEnded, allAgree⟩ := ended.executeAll inv whole written _
    fun output mem => ((kept output).mp mem).1
  refine ⟨⟨allEnded.buffer, allEnded.commonArg, allEnded.result, ?_⟩, allAgree⟩
  intro call number before isSite isKept
  refine allEnded.copyOut call number ?_ isSite isKept
  rcases Nat.lt_succ_iff_lt_or_eq.mp before with earlier | rfl
  · exact .inl earlier
  · exact .inr ⟨rfl, (kept number).mpr ⟨isSite, isKept⟩⟩

end

def Rewriting.machineAt (state : Rewriting) (meaning : Meaning Content)
    (memory : Location → Content) (bound : Nat) : Machine Content :=
  executeAll meaning state.opOf ((List.range bound).flatMap state.segment) ⟨initialPlaces, memory⟩

theorem start_placed : Placed prog order 0 initialPlaces where
  buffer _ := rfl
  commonArg _ _ := rfl
  result _ _ defined := absurd defined.1 (not_lt_zero _)
  copyOut _ _ before := absurd before (not_lt_zero _)

/-- As long as operations use what is left, the two functions leave the same. -/
theorem machineAt_agrees (inv : RewritingInv prog order (prog.sites order) final)
    (whole : WholeOutputs prog order) (bound : Nat)
    (same : ∀ place < bound, (prog.opAt place).reads.map
        (fun value => prog.contentLeft order meaning place value
          (prog.left order meaning memory place)) =
      prog.contentsUsed meaning memory place) :
    Placed prog order bound (final.machineAt meaning memory bound).places ∧
      Agrees (final.machineAt meaning memory bound).memory
        (prog.left order meaning memory bound) := by
  induction bound with
  | zero => exact ⟨start_placed, fun _ => rfl, fun _ _ => rfl⟩
  | succ bound ih =>
    obtain ⟨placed, agrees⟩ := ih fun place before => same place (lt_succ_of_lt before)
    obtain ⟨-, ended⟩ := executeAll_segment inv whole placed agrees
    rw [same bound (lt_succ_self bound)] at ended
    unfold Rewriting.machineAt
    rw [range_succ, flatMap_append, executeAll_append, flatMap_singleton]
    exact ended

/-! ### Uses -/

theorem takeWhile_ne_append {front back : List OpId} (fresh : id ∉ front) :
    (front ++ id :: back).takeWhile (· ≠ id) = front := by
  rw [takeWhile_append_of_pos, takeWhile_cons_of_neg (by simp), append_nil]
  intro other mem
  exact decide_eq_true fun same => fresh (same ▸ mem)

theorem range_split {bound : Nat} (inside : place < bound) :
    ∃ rest, List.range bound = List.range place ++ place :: rest := by
  obtain ⟨more, rfl⟩ := Nat.exists_eq_add_of_lt inside
  refine ⟨(range more).map (place + 1 + ·), ?_⟩
  rw [show place + more + 1 = place + 1 + more by omega, range_add, range_succ,
    append_assoc, singleton_append]

theorem contentsAt_original (inside : place < prog.size) :
    contentsAt meaning prog.opOf prog.originalBlock memory (.original place) =
      prog.contentsUsed meaning memory place := by
  obtain ⟨rest, split⟩ := range_split inside
  unfold contentsAt Program.originalBlock
  rw [split, map_append, map_cons, takeWhile_ne_append]
  · rfl
  · rw [mem_map]
    rintro ⟨other, mem, same⟩
    exact absurd (mem_range.mp mem) (OpId.original.inj same ▸ lt_irrefl _)

theorem contentsAt_rewritten (inv : RewritingInv prog order (prog.sites order) final)
    (inside : place < prog.size) :
    contentsAt meaning final.opOf (final.block prog.size) memory (.original place) =
      (prog.rewrittenOp (prog.sites order) place).reads.map
        ((executeAll meaning final.opOf (final.before place)
          (final.machineAt meaning memory place)).read meaning) := by
  obtain ⟨rest, split⟩ := range_split inside
  obtain ⟨inputs, isBefore, -⟩ := before_eq inv place
  have isBlock : final.block prog.size =
      ((range place).flatMap final.segment ++ final.before place) ++
        .original place :: (final.after place ++ rest.flatMap final.segment) := by
    unfold Rewriting.block
    rw [split, flatMap_append, flatMap_cons]
    simp only [append_assoc, cons_append]
    rfl
  unfold contentsAt
  rw [isBlock, takeWhile_ne_append, executeAll_append, inv.original]
  · rfl
  · rw [mem_append, isBefore]
    rintro (earlier | copied)
    · obtain ⟨other, mem, inSegment⟩ := mem_flatMap.mp earlier
      obtain ⟨otherInputs, isOtherBefore, -⟩ := before_eq inv other
      unfold Rewriting.segment at inSegment
      rw [isOtherBefore, inv.after] at inSegment
      simp only [mem_append, mem_map, mem_cons, mem_reverse, reduceCtorEq,
        and_false, exists_false, or_false, false_or, OpId.original.injEq] at inSegment
      exact absurd (mem_range.mp mem) (inSegment ▸ lt_irrefl _)
    · obtain ⟨input, -, absurdity⟩ := mem_map.mp copied
      cases absurdity

/-- The rewritten function uses what the original one does. -/
def Preserves (prog : Program) (final : Rewriting) (meaning : Meaning Content)
    (memory : Location → Content) : Prop :=
  ∀ place < prog.size,
    contentsAt meaning final.opOf (final.block prog.size) memory (.original place) =
      contentsAt meaning prog.opOf prog.originalBlock memory (.original place)

/-- At every use in the original function, a result that a call takes directly is what the last
call of the callee gave, and the content of another value does not depend on the outputs whose
copies are erased. -/
def UsesAreLeft (prog : Program) (order : prog.CalleeOrder) (meaning : Meaning Content)
    (memory : Location → Content) : Prop :=
  ∀ place < prog.size, ∀ value ∈ (prog.opAt place).reads,
    prog.contentLeft order meaning place value (prog.left order meaning memory place) =
      (prog.originalMachine meaning memory place).read meaning value

theorem usesAreLeft_iff : UsesAreLeft prog order meaning memory ↔
    ∀ place < prog.size, (prog.opAt place).reads.map
        (fun value => prog.contentLeft order meaning place value
          (prog.left order meaning memory place)) =
      prog.contentsUsed meaning memory place := by
  unfold UsesAreLeft Program.contentsUsed
  simp only [map_inj_left]

/-- Three calls of one callee. The third one uses the result of the first one. -/
def lateUse : Program where
  ops := [⟨.call 0, [.buffer 0], [.buffer 2]⟩, ⟨.call 0, [.buffer 1], [.buffer 3]⟩,
    ⟨.call 0, [.result (.original 0) 0], [.buffer 4]⟩]
  operands_defined := by decide

/-- Two calls, where the second one uses the result of the first one and a layer its own. -/
def chain : Program where
  ops := [⟨.call 0, [.buffer 0], [.buffer 2]⟩, ⟨.call 0, [.result (.original 0) 0], [.buffer 3]⟩,
    ⟨.layer 0, [.result (.original 1) 0], [.buffer 4]⟩]
  operands_defined := by decide

def lateUseOrder : lateUse.CalleeOrder where
  callees := [0]
  nodup := by decide
  complete place inside callee isCall := by
    have inside : place < 3 := inside
    interval_cases place <;> cases isCall <;> exact mem_cons_self

def chainOrder : chain.CalleeOrder where
  callees := [0]
  nodup := by decide
  complete place inside callee isCall := by
    have inside : place < 3 := inside
    interval_cases place <;> cases isCall <;> exact mem_cons_self

/-- A callee adds one to its input. -/
def increment : Meaning Nat where
  compute _ contents _ := contents.sum + 1
  view _ content := content
  update _ _ written := written

def numbered : Location → Nat
  | .root number => 10 * number
  | .common .. => 0

theorem chain_wholeOutputs : WholeOutputs chain chainOrder where
  whole call output value isSite isOutput := by
    have isSites : chain.sites chainOrder =
      [(0, .input 0), (0, .output 0), (1, .input 0), (1, .output 0)] := by decide
    rw [isSites] at isSite
    simp only [mem_cons, Prod.mk.injEq, reduceCtorEq, and_false, not_mem_nil, or_false,
      Slot.output.injEq, false_or] at isSite
    rcases isSite with ⟨rfl, rfl⟩ | ⟨rfl, rfl⟩ <;> cases isOutput <;> decide
  indirect place output call number _ isOutput := by
    have outputs : ∀ place < chain.size, ∀ value ∈ (chain.opAt place).outputs,
        value = .buffer 2 ∨ value = .buffer 3 ∨ value = .buffer 4 := by decide
    have isOperand : (chain.opAt place).operand (.output output) = _ := isOutput
    have inside := (Program.definedBefore_of_mem (Program.mem_of_operand isOperand)).1
    rcases outputs place inside _ (mem_of_getElem? isOutput) with same | same | same <;>
      cases same

end NpuPlugin.RepeatingCalls
