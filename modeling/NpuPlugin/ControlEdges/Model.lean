/-
This file models the generator of memory control edges: the accesses of scheduled operations to
address intervals, the set of disjoint intervals with their producers and consumers, and the
processing of one access after the other. Addresses are unsigned 64-bit words.
-/

import NpuPlugin.AsyncDepsInfo.Model
import NpuPlugin.Library.Loop
import NpuPlugin.Library.Pieces
import NpuPlugin.Library.Words

namespace NpuPlugin

open AsyncDepsInfo Function List Run

/-! ### Scheduled accesses -/

/-- `ScheduledOpOneResource::ResourceView`; the buffer is an opaque value. -/
structure ResourceView where
  buffer : Nat
  offset : List Int
  shape : List Int
  staticStrides : List Int
deriving DecidableEq, Repr

inductive EResRelation
  | producer
  | consumer
deriving DecidableEq, Repr

/-- `ScheduledOpOneResource`: an access of an operation to the addresses from `addressStart`
to `addressEnd`, both included. -/
structure ScheduledOpOneResource where
  op : Nat
  addressStart : Nat
  addressEnd : Nat
  resRelation : EResRelation
  resourceView : Option ResourceView
  addressStart_lt : addressStart < 2 ^ 64 := by decide
  addressEnd_lt : addressEnd < 2 ^ 64 := by decide
deriving DecidableEq

namespace ScheduledOpOneResource

/-- `operator<`. -/
def less (first second : ScheduledOpOneResource) : Bool :=
  if first.addressStart = second.addressStart ∧ first.addressEnd = second.addressEnd then
    first.op < second.op
  else if first.addressStart ≠ second.addressStart then first.addressStart < second.addressStart
  else first.addressEnd < second.addressEnd

def canOverlap (first second : ScheduledOpOneResource) : Bool :=
  if first.addressEnd < second.addressStart ∨ first.addressStart > second.addressEnd then true
  else if first.addressStart = second.addressStart ∧ first.addressEnd = second.addressEnd then
    match first.resourceView, second.resourceView with
    | some resVal1, some resVal2 =>
      resVal1.buffer = resVal2.buffer ∧ resVal1.staticStrides = resVal2.staticStrides ∧
        resVal1.offset ≠ resVal2.offset
    | _, _ => false
  else false

def isIntervalProducer (interval : ScheduledOpOneResource) : Bool :=
  interval.resRelation = .producer

def canProducersCoexist (existingProd newProd : ScheduledOpOneResource) : Bool :=
  existingProd.canOverlap newProd

def sameIntervalAccess (intA intB : ScheduledOpOneResource) : Bool := !intA.canOverlap intB

end ScheduledOpOneResource

/-- `std::set::insert`: an element that is equivalent to a new one is kept. -/
def setInsert {Element : Type} (less : Element → Element → Bool) (element : Element) :
    List Element → List Element
  | [] => [element]
  | head :: rest =>
    if less element head then element :: head :: rest
    else if less head element then head :: setInsert less element rest
    else head :: rest

/-! ### The set of disjoint intervals -/

/-- `ProdConsType`: the producers and the consumers of an interval. -/
structure ProdConsType where
  producers : List ScheduledOpOneResource
  consumers : List ScheduledOpOneResource
deriving DecidableEq

namespace ProdConsType

/-- The constructor. -/
def ofProducer (prod : ScheduledOpOneResource) : ProdConsType := ⟨[prod], []⟩

def newProducer (_ : ProdConsType) (prod : ScheduledOpOneResource) : ProdConsType := ⟨[prod], []⟩

def addProducer (prodCons : ProdConsType) (prod : ScheduledOpOneResource) : ProdConsType :=
  { prodCons with producers := setInsert ScheduledOpOneResource.less prod prodCons.producers }

def addConsumer (prodCons : ProdConsType) (cons : ScheduledOpOneResource) : ProdConsType :=
  { prodCons with consumers := setInsert ScheduledOpOneResource.less cons prodCons.consumers }

end ProdConsType

inductive OrientType
  | leftEnd
  | rightEnd
deriving DecidableEq, Repr

def OrientType.rank : OrientType → Nat
  | leftEnd => 0
  | rightEnd => 1

structure EndPointType where
  x : Nat
  orient : OrientType
deriving DecidableEq, Repr

namespace EndPointType

/-- The position of an end point: by `x`, a left end before a right one. -/
def rank (point : EndPointType) : Nat := 2 * point.x + point.orient.rank

theorem rank_injective : Function.Injective rank := by
  rintro ⟨x, orient⟩ ⟨x', orient'⟩ same
  simp only [rank] at same
  have points : x = x' := by
    cases orient <;> cases orient' <;> simp only [OrientType.rank] at same <;> omega
  subst points
  cases orient <;> cases orient' <;> simp only [OrientType.rank] at same <;> first | rfl | omega

instance : LinearOrder EndPointType := LinearOrder.lift' rank rank_injective

variable {first second : EndPointType}

theorem lt_iff_rank : first < second ↔ first.rank < second.rank := Iff.rfl

theorem le_iff_rank : first ≤ second ↔ first.rank ≤ second.rank := Iff.rfl

end EndPointType

/-- `_tree`. -/
abbrev EndPointTree := List (EndPointType × ProdConsType)

namespace DisjointIntervalSet

open OrderedMap EndPointType

/-- `IntervalIteratorType`: iterators to a left end and to the end of the query. -/
structure IntervalIterator where
  itrBegin : Option EndPointType
  itrEnd : Option EndPointType
deriving DecidableEq, Repr

/-- Equality with the iterator `end()`. -/
def IntervalIterator.atEnd (itr : IntervalIterator) : Bool := itr.itrBegin = itr.itrEnd

variable (tree : EndPointTree)

/-- `operator++`. -/
def IntervalIterator.advance (itr : IntervalIterator) : IntervalIterator :=
  { itr with itrBegin := (itr.itrBegin.bind (next tree)).bind (next tree) }

/-- What an iterator that is not at the end points to: `intervalBegin`, `intervalEnd` and
`getProdCons`. -/
def IntervalIterator.deref (itr : IntervalIterator) : Option (Nat × Nat × ProdConsType) := do
  let left ← itr.itrBegin
  let right ← next tree left
  let prodCons ← find tree left
  return (left.x, right.x, prodCons)

def isIntervalDisjoint (lkey rkey : EndPointType) : Option EndPointType → Bool
  | none => true
  | some lkeyLb => lkeyLb.orient = .leftEnd ∧ lkey.x < lkeyLb.x ∧ rkey.x < lkeyLb.x

/-- `insert`; the flag says whether the interval was disjoint with the others. -/
def insert (tree : EndPointTree) (ibeg iend : Nat) (prodCons : ProdConsType) :
    Bool × EndPointTree :=
  let lkey : EndPointType := ⟨ibeg, .leftEnd⟩
  let rkey : EndPointType := ⟨iend, .rightEnd⟩
  if isIntervalDisjoint lkey rkey (lowerBound tree lkey) then
    (true, OrderedMap.insert (OrderedMap.insert tree lkey prodCons) rkey prodCons)
  else (false, tree)

def erase (tree : EndPointTree) (ibeg iend : Nat) : Bool × EndPointTree :=
  let lkey : EndPointType := ⟨ibeg, .leftEnd⟩
  let rkey : EndPointType := ⟨iend, .rightEnd⟩
  if (find tree lkey).isNone ∨ (find tree rkey).isNone then (false, tree)
  else (true, OrderedMap.erase (OrderedMap.erase tree lkey) rkey)

/-- The first iterator of `query`: a right end belongs to an interval that began earlier. -/
def queryBegin (ibeg : Nat) : Option EndPointType :=
  match lowerBound tree ⟨ibeg, .leftEnd⟩ with
  | some left => if left.orient = .rightEnd then prev tree left else some left
  | none => none

/-- The second iterator of `query`. -/
def queryEnd (iend : Nat) : Option EndPointType :=
  match lowerBound tree ⟨iend, .rightEnd⟩ with
  | some right => if right.orient = .rightEnd then next tree right else some right
  | none => none

def query (ibeg iend : Nat) : IntervalIterator := ⟨queryBegin tree ibeg, queryEnd tree iend⟩

end DisjointIntervalSet

/-! ### Arithmetic of intervals -/

namespace IntervalUtils

def intersects (abeg aend bbeg bend : Nat) : Bool := max abeg bbeg ≤ min aend bend

def isSubset (abeg aend bbeg bend : Nat) : Bool :=
  if max abeg bbeg > min aend bend then false
  else max abeg bbeg = abeg ∧ min aend bend = aend

/-- `intervalXor`: the at most two intervals that belong to only one of the two. -/
def intervalXor (abeg aend bbeg bend : Nat) : List (Nat × Nat) :=
  if intersects abeg aend bbeg bend then
    let obeg := Words.sub 64 (max abeg bbeg) 1
    let oend := Words.add 64 (min aend bend) 1
    let ubeg := min abeg bbeg
    let uend := max aend bend
    (if ubeg ≤ obeg ∧ obeg < min aend bend then [(ubeg, obeg)] else []) ++
      (if oend ≤ uend ∧ max abeg bbeg < oend then [(oend, uend)] else [])
  else [(abeg, aend), (bbeg, bend)]

end IntervalUtils

/-! ### The generator -/

structure ControlEdge where
  source : Nat
  sink : Nat
deriving DecidableEq, Repr

namespace ControlEdgeGenerator

open DisjointIntervalSet IntervalUtils ScheduledOpOneResource

/-- The sources of the edges to the operations, apart from loops, in increasing order. -/
def sourcesOfProducers (currProducers : List Nat) (edges : List ControlEdge) : List Nat :=
  edges.foldl
    (fun sources edge =>
      if edge.sink ∈ currProducers ∧ edge.source ≠ edge.sink then
        setInsert (fun first second => decide (first < second)) edge.source sources
      else sources) []

variable (currInterval : ScheduledOpOneResource)

/-- The edges `processNextInterval` emits for one overlapped interval, and the producers and
consumers the intersection gets. -/
def updateOwners (qitrProdCons : ProdConsType)
    (outputDependency : List ControlEdge) : ProdConsType × List ControlEdge :=
  if currInterval.isIntervalProducer then
    if qitrProdCons.producers.all (canProducersCoexist currInterval) then
      -- a producer beside the others waits for what they wait for
      let sources := sourcesOfProducers (qitrProdCons.producers.map op) outputDependency
      (qitrProdCons.addProducer currInterval, sources.map fun source => ⟨source, currInterval.op⟩)
    else if qitrProdCons.consumers.isEmpty then
      (qitrProdCons.newProducer currInterval,
        qitrProdCons.producers.map fun prod => ⟨prod.op, currInterval.op⟩)
    else
      (qitrProdCons.newProducer currInterval,
        qitrProdCons.consumers.map fun cons => ⟨cons.op, currInterval.op⟩)
  else
    (qitrProdCons.addConsumer currInterval,
      (qitrProdCons.producers.filter (sameIntervalAccess currInterval)).map
        fun prod => ⟨prod.op, currInterval.op⟩)

/-- The state of the loop of `processNextInterval`: what is left of the current interval, and
the iterator to the next overlapped one. -/
structure Overlay where
  tree : EndPointTree
  edges : List ControlEdge
  currRemBeg : Nat
  currRemEnd : Nat
  qitr : IntervalIterator

def replacement (qbeg qend : Nat) (qitrProdCons newProdCons : ProdConsType)
    (currRemBeg currRemEnd : Nat) : List (Nat × Nat × ProdConsType) × Nat × Nat :=
  let interBeg := max currRemBeg qbeg
  let interEnd := min currRemEnd qend
  let noRemainder := (2 ^ 64 - 1, 0)
  let fromCurr := fun part : Nat × Nat => isSubset part.1 part.2 currRemBeg currRemEnd
  let value := fun part : Nat × Nat =>
    if fromCurr part then ProdConsType.ofProducer currInterval else qitrProdCons
  let above := fun parts : List (Nat × Nat) =>
    match parts with
    | [] => ([], noRemainder)
    | part :: _ =>
      if fromCurr part then ([], part) else ([(part.1, part.2, value part)], noRemainder)
  match intervalXor qbeg qend currRemBeg currRemEnd with
  | [] => ([(interBeg, interEnd, newProdCons)], noRemainder)
  | part :: rest =>
    if part.2 < interBeg then
      ((part.1, part.2, value part) :: (interBeg, interEnd, newProdCons) :: (above rest).1,
        (above rest).2)
    else ((interBeg, interEnd, newProdCons) :: (above (part :: rest)).1, (above (part :: rest)).2)

def insertAll (tree : EndPointTree) (pieces : List (Nat × Nat × ProdConsType)) : EndPointTree :=
  pieces.foldl (fun tree piece => (insert tree piece.1 piece.2.1 piece.2.2).2) tree

/-- One turn of the loop over the overlapped intervals; nothing when the loop is left. -/
def overlayTurn (state : Overlay) : Option Overlay :=
  if state.qitr.atEnd then none
  else
    match state.qitr.deref state.tree with
    | none => none
    | some (qbeg, qend, qitrProdCons) =>
      if intersects qbeg qend state.currRemBeg state.currRemEnd then
        let updated := updateOwners currInterval qitrProdCons state.edges
        let replaced := replacement currInterval qbeg qend qitrProdCons updated.1
          state.currRemBeg state.currRemEnd
        some
          { tree := insertAll (erase state.tree qbeg qend).2 replaced.1
            edges := state.edges ++ updated.2
            currRemBeg := replaced.2.1
            currRemEnd := replaced.2.2
            qitr := state.qitr.advance state.tree }
      else none

/-- The loop; every turn moves the iterator past an entry of the tree, so their number bounds
the turns. -/
def overlayLoop (currInterval : ScheduledOpOneResource) : Nat → Overlay → Overlay
  | 0, state => state
  | turns + 1, state =>
    match overlayTurn currInterval state with
    | none => state
    | some state => overlayLoop currInterval turns state

structure Merge where
  tree : EndPointTree
  qitr : IntervalIterator
  prevRightEnd : Nat

/-- The loop of `mergeAbuttingIntervals`: abutting intervals with the same owners are erased. -/
def mergeLoop (currIntervalProdCons : ProdConsType) : Nat → Merge → Merge
  | 0, state => state
  | turns + 1, state =>
    if state.qitr.atEnd then state
    else
      match state.qitr.deref state.tree with
      | none => state
      | some (qbeg, qend, prodCons) =>
        if prodCons = currIntervalProdCons ∧ Words.add 64 state.prevRightEnd 1 = qbeg then
          mergeLoop currIntervalProdCons turns
            { tree := (erase state.tree qbeg qend).2
              qitr := state.qitr.advance state.tree
              prevRightEnd := qend }
        else state

def mergeAbuttingIntervals (tree : EndPointTree) : Except String EndPointTree :=
  if !currInterval.isIntervalProducer then
    .error "Abutting intervals can be merged only for new resource producer"
  else
    let qitr := query tree currInterval.addressStart currInterval.addressEnd
    let currIntervalProdCons := ProdConsType.ofProducer currInterval
    if qitr.atEnd then .ok tree
    else
      match qitr.deref tree with
      | none => .ok tree
      | some (prevLeftEnd, startEnd, prodCons) =>
        if prodCons ≠ currIntervalProdCons then .ok tree
        else
          let merged := mergeLoop currIntervalProdCons tree.length
            ⟨tree, qitr.advance tree, startEnd⟩
          if merged.prevRightEnd > startEnd then
            .ok (insert (erase merged.tree prevLeftEnd startEnd).2 prevLeftEnd
              merged.prevRightEnd currIntervalProdCons).2
          else .ok merged.tree

/-- The state of the generator: `_intervalTree` and the edges emitted so far. -/
structure Generated where
  tree : EndPointTree
  edges : List ControlEdge
deriving DecidableEq

def processNextInterval (state : Generated) : Except String Generated :=
  let currBeg := currInterval.addressStart
  let currEnd := currInterval.addressEnd
  let overlaid := overlayLoop currInterval state.tree.length
    ⟨state.tree, state.edges, currBeg, currEnd, query state.tree currBeg currEnd⟩
  let tree :=
    if overlaid.currRemBeg ≤ overlaid.currRemEnd then
      (insert overlaid.tree overlaid.currRemBeg overlaid.currRemEnd
        (ProdConsType.ofProducer currInterval)).2
    else overlaid.tree
  if currInterval.isIntervalProducer then
    match mergeAbuttingIntervals currInterval tree with
    | .error message => .error message
    | .ok tree => .ok ⟨tree, overlaid.edges⟩
  else .ok ⟨tree, overlaid.edges⟩

/-- `generateControlEdges` with an empty output; the edge count the source returns is the length
of the list. -/
def generateControlEdges (intervals : List ScheduledOpOneResource) : Except String Generated :=
  intervals.foldlM
    (fun state currInterval =>
      if currInterval.addressStart > currInterval.addressEnd then .ok state
      else processNextInterval currInterval state)
    ⟨[], []⟩

end ControlEdgeGenerator

/-! ### The update -/

/-- `async.execute` operations have the cycles at which they begin and end. -/
structure Cycles where
  cycleBegin : Nat → Nat
  cycleEnd : Nat → Nat

/-- The scheduler let both operations run at the same time. -/
def Cycles.overlap (cycles : Cycles) (edge : ControlEdge) : Bool :=
  cycles.cycleBegin edge.sink < cycles.cycleEnd edge.source &&
    cycles.cycleBegin edge.source < cycles.cycleEnd edge.sink

/-- The first loop, with the dropped sources of each sink. -/
def addControlEdge (cycles : Cycles) (state : AsyncDepsInfo × (Nat → List Nat))
    (edge : ControlEdge) : Except Nat (AsyncDepsInfo × (Nat → List Nat)) :=
  if edge.source = edge.sink then .ok state
  else if cycles.overlap edge then
    .ok (state.1, Function.update state.2 edge.sink (state.2 edge.sink ++ [edge.source]))
  else (state.1.addDependency edge.source edge.sink).map fun info => (info, state.2)

/-- The second loop. -/
def addOptimizedEdges (optimizedEdges : Nat → List Nat) (info : AsyncDepsInfo)
    (edge : ControlEdge) : Except Nat AsyncDepsInfo :=
  if edge.source = edge.sink then .ok info
  else (optimizedEdges edge.source).foldlM (fun info source => info.addDependency source edge.sink)
    info

def updateControlEdgesInDepsInfo (info : AsyncDepsInfo) (controlEdges : List ControlEdge)
    (cycles : Cycles) : Except Nat AsyncDepsInfo := do
  let state ← controlEdges.foldlM (addControlEdge cycles) (info, fun _ => [])
  controlEdges.foldlM (addOptimizedEdges state.2) state.1

/-! ### Dependencies -/

section

variable {info middle after : AsyncDepsInfo} {controlEdges done : List ControlEdge}
  {cycles : Cycles} {optimizedEdges : Nat → List Nat} {pairs others : List (Nat × Nat)}
  {source sink : Nat}

/-- Dependencies are added, these ones at least. -/
structure Grown (info after : AsyncDepsInfo) (pairs : List (Nat × Nat)) : Prop where
  size : after.depsMap.length = info.depsMap.length
  old : ∀ dep index, IsDep info.depsMap dep index → IsDep after.depsMap dep index
  new : ∀ pair ∈ pairs, IsDep after.depsMap pair.1 pair.2

theorem grown_nil (info : AsyncDepsInfo) : Grown info info [] :=
  ⟨rfl, fun _ _ isDep => isDep, forall_mem_nil _⟩

theorem Grown.trans (first : Grown info middle pairs) (second : Grown middle after others) :
    Grown info after (pairs ++ others) := by
  refine ⟨second.size.trans first.size, fun dep index isDep => second.old _ _ (first.old _ _ isDep),
    fun pair mem => ?_⟩
  rcases mem_append.mp mem with before | now
  · exact second.old _ _ (first.new pair before)
  · exact second.new pair now

theorem addDependency_ok (sourceInside : source < info.depsMap.length)
    (sinkInside : sink < info.depsMap.length) :
    ∃ after, info.addDependency source sink = .ok after ∧ Grown info after [(source, sink)] := by
  refine ⟨_, dif_pos ⟨sourceInside, sinkInside⟩, length_modify .., fun dep index isDep => ?_,
    fun pair mem => ?_⟩
  · unfold IsDep at isDep ⊢
    rw [entry_modify _ sinkInside]
    split
    · exact Finset.mem_insert_of_mem isDep
    · exact isDep
  · rw [mem_singleton.mp mem]
    unfold IsDep
    rw [entry_modify _ sinkInside, if_pos rfl]
    exact Finset.mem_insert_self _ _

/-- What the first loop has added and dropped. -/
structure Added (cycles : Cycles) (info : AsyncDepsInfo) (done : List ControlEdge)
    (state : AsyncDepsInfo × (Nat → List Nat)) : Prop where
  grown : ∃ pairs, Grown info state.1 pairs
  kept : ∀ edge ∈ done, edge.source ≠ edge.sink → cycles.overlap edge = false →
    IsDep state.1.depsMap edge.source edge.sink
  dropped : ∀ edge ∈ done, edge.source ≠ edge.sink → cycles.overlap edge = true →
    edge.source ∈ state.2 edge.sink
  inside : ∀ sink, ∀ source ∈ state.2 sink, source < info.depsMap.length

theorem Added.step {state : AsyncDepsInfo × (Nat → List Nat)} {edge : ControlEdge}
    (added : Added cycles info done state) (sourceInside : edge.source < info.depsMap.length)
    (sinkInside : edge.sink < info.depsMap.length) :
    ∃ after, addControlEdge cycles state edge = .ok after ∧
      Added cycles info (done ++ [edge]) after := by
  unfold addControlEdge
  split
  · rename_i loop
    exact ⟨state, rfl, added.grown, forall_mem_append.mpr ⟨added.kept,
        forall_mem_singleton.mpr fun different => absurd loop different⟩,
      forall_mem_append.mpr ⟨added.dropped,
        forall_mem_singleton.mpr fun different => absurd loop different⟩, added.inside⟩
  · obtain ⟨pairs, grown⟩ := added.grown
    split
    · rename_i overlaps
      have more : ∀ sink source, source ∈ state.2 sink → source ∈
          update state.2 edge.sink (state.2 edge.sink ++ [edge.source]) sink := by
        intro sink source mem
        rw [update_apply]
        split
        · rename_i same
          exact mem_append_left _ (same ▸ mem)
        · exact mem
      refine ⟨_, rfl, ⟨pairs, grown⟩, ?_, ?_, fun sink source mem => ?_⟩
      · exact forall_mem_append.mpr ⟨added.kept, forall_mem_singleton.mpr
          fun _ apart => absurd overlaps (by rw [apart]; exact Bool.false_ne_true)⟩
      · refine forall_mem_append.mpr ⟨fun other mem different overlaps =>
          more _ _ (added.dropped other mem different overlaps),
          forall_mem_singleton.mpr fun _ _ => ?_⟩
        dsimp only
        rw [update_self]
        exact mem_append_right _ (mem_singleton_self _)
      · dsimp only at mem
        rw [update_apply] at mem
        split at mem
        · rcases mem_append.mp mem with old | new
          · exact added.inside _ _ old
          · exact mem_singleton.mp new ▸ sourceInside
        · exact added.inside _ _ mem
    · rename_i apart
      obtain ⟨after, res, more⟩ := addDependency_ok (sourceInside.trans_eq grown.size.symm)
        (sinkInside.trans_eq grown.size.symm)
      refine ⟨(after, state.2), by rw [res]; rfl, ⟨_, grown.trans more⟩, ?_, ?_, added.inside⟩
      · exact forall_mem_append.mpr ⟨fun other mem different gone =>
          more.old _ _ (added.kept other mem different gone),
          forall_mem_singleton.mpr fun _ _ => more.new _ (mem_singleton_self _)⟩
      · exact forall_mem_append.mpr ⟨added.dropped,
          forall_mem_singleton.mpr fun _ overlaps => absurd overlaps apart⟩

/-- What the second loop adds for an edge. -/
def links (optimizedEdges : Nat → List Nat) (edge : ControlEdge) : List (Nat × Nat) :=
  if edge.source = edge.sink then []
  else (optimizedEdges edge.source).map fun source => (source, edge.sink)

theorem addOptimizedEdges_ok {edge : ControlEdge}
    (sources : ∀ source ∈ optimizedEdges edge.source, source < info.depsMap.length)
    (sinkInside : edge.sink < info.depsMap.length) :
    ∃ after, addOptimizedEdges optimizedEdges info edge = .ok after ∧
      Grown info after (links optimizedEdges edge) := by
  unfold addOptimizedEdges links
  split
  · exact ⟨info, rfl, grown_nil info⟩
  · refine foldlM_done (fun done after => Grown info after
      (done.map fun source => (source, edge.sink))) _ ?_ info (grown_nil info)
    intro done source rest split state grown
    have inside := sources source (split ▸ mem_append_right _ mem_cons_self)
    obtain ⟨after, res, more⟩ := addDependency_ok (inside.trans_eq grown.size.symm)
      (sinkInside.trans_eq grown.size.symm)
    exact ⟨after, res, map_append ▸ grown.trans more⟩

/-- Kept edges are dependencies, and so is each dropped edge together with any one behind it. -/
theorem updateControlEdgesInDepsInfo_ok (cycles : Cycles) (inside : ∀ edge ∈ controlEdges,
      edge.source < info.depsMap.length ∧ edge.sink < info.depsMap.length) :
    ∃ after, updateControlEdgesInDepsInfo info controlEdges cycles = .ok after ∧
      (∀ edge ∈ controlEdges, edge.source ≠ edge.sink → cycles.overlap edge = false →
        IsDep after.depsMap edge.source edge.sink) ∧
      ∀ edge ∈ controlEdges, edge.source ≠ edge.sink → cycles.overlap edge = true →
        ∀ next ∈ controlEdges, next.source ≠ next.sink → next.source = edge.sink →
          IsDep after.depsMap edge.source next.sink := by
  obtain ⟨state, ran, added⟩ := foldlM_done (Added cycles info) controlEdges
    (fun done edge rest split state added =>
      let here := inside edge (split ▸ mem_append_right _ mem_cons_self)
      added.step here.1 here.2)
    (info, fun _ => []) ⟨⟨_, grown_nil info⟩, by simp, by simp, by simp⟩
  obtain ⟨pairs, grown⟩ := added.grown
  obtain ⟨after, res, more⟩ := foldlM_done (fun done after => Grown state.1 after
      (done.flatMap (links state.2))) controlEdges
    (fun done edge rest split middle before => by
      have size := before.size.trans grown.size
      have here := inside edge (split ▸ mem_append_right _ mem_cons_self)
      obtain ⟨after, res, now⟩ := addOptimizedEdges_ok
        (fun source mem => (added.inside _ source mem).trans_eq size.symm)
        (here.2.trans_eq size.symm)
      refine ⟨after, res, ?_⟩
      rw [flatMap_append, flatMap_singleton]
      exact before.trans now) state.1 (grown_nil _)
  refine ⟨after, (ok_bind ran _).trans res, fun edge mem different apart =>
    more.old _ _ (added.kept edge mem different apart), ?_⟩
  intro edge mem different overlaps next nextMember nextDifferent follows
  refine more.new (edge.source, next.sink) (mem_flatMap.mpr ⟨next, nextMember, ?_⟩)
  rw [links, if_neg nextDifferent, follows]
  exact mem_map.mpr ⟨edge.source, added.dropped edge mem different overlaps, rfl⟩

end

/-! ### Paths -/

/-- A path of control edges between different operations, with the number of dropped edges behind
the last one that was kept. -/
inductive ControlPath (controlEdges : List ControlEdge) (cycles : Cycles) (start : Nat) :
    Nat → Nat → Prop
  | refl : ControlPath controlEdges cycles start start 0
  | kept {stop dropped : Nat} {edge : ControlEdge}
      (path : ControlPath controlEdges cycles start stop dropped) (mem : edge ∈ controlEdges)
      (leaves : edge.source = stop) (different : edge.source ≠ edge.sink)
      (apart : cycles.overlap edge = false) : ControlPath controlEdges cycles start edge.sink 0
  | dropped {stop dropped : Nat} {edge : ControlEdge}
      (path : ControlPath controlEdges cycles start stop dropped) (mem : edge ∈ controlEdges)
      (leaves : edge.source = stop) (different : edge.source ≠ edge.sink)
      (overlaps : cycles.overlap edge = true) :
      ControlPath controlEdges cycles start edge.sink (dropped + 1)

/-- An operation depends on those from which a path leads to it that does not end in an odd number
of dropped edges. -/
theorem updateControlEdgesInDepsInfo_depends {info : AsyncDepsInfo}
    {controlEdges : List ControlEdge} (cycles : Cycles) (inside : ∀ edge ∈ controlEdges,
      edge.source < info.depsMap.length ∧ edge.sink < info.depsMap.length) :
    ∃ after, updateControlEdgesInDepsInfo info controlEdges cycles = .ok after ∧
      ∀ start stop dropped, ControlPath controlEdges cycles start stop dropped → Even dropped →
        start = stop ∨ Relation.TransGen (IsDep after.depsMap) start stop := by
  obtain ⟨after, res, isKept, isLinked⟩ := updateControlEdgesInDepsInfo_ok cycles inside
  refine ⟨after, res, fun start stop dropped path even => ?_⟩
  -- Behind an odd number of dropped edges the source of the last one is reached.
  have reached : (Even dropped → Relation.ReflTransGen (IsDep after.depsMap) start stop) ∧
      (¬ Even dropped → ∃ edge ∈ controlEdges, edge.source ≠ edge.sink ∧
        cycles.overlap edge = true ∧ edge.sink = stop ∧
          Relation.ReflTransGen (IsDep after.depsMap) start edge.source) := by
    clear even
    induction path with
    | refl => exact ⟨fun _ => .refl, fun odd => absurd Even.zero odd⟩
    | @kept stop dropped edge _ mem leaves different apart ih =>
      refine ⟨fun _ => ?_, fun odd => absurd Even.zero odd⟩
      by_cases even : Even dropped
      · exact (ih.1 even).tail (leaves ▸ isKept edge mem different apart)
      · obtain ⟨last, inEdges, lastDifferent, overlaps, isStop, before⟩ :=
          ih.2 even
        exact before.tail (isLinked last inEdges lastDifferent overlaps edge mem different
          (leaves.trans isStop.symm))
    | @dropped stop dropped edge _ mem leaves different overlaps ih =>
      rw [Nat.even_add_one, not_not]
      refine ⟨fun odd => ?_, fun even => ⟨edge, mem, different, overlaps, rfl, leaves ▸ ih.1 even⟩⟩
      obtain ⟨last, inEdges, lastDifferent, lastOverlaps, isStop, before⟩ := ih.2 odd
      exact before.tail (isLinked last inEdges lastDifferent lastOverlaps edge mem different
        (leaves.trans isStop.symm))
  exact (Relation.reflTransGen_iff_eq_or_transGen.mp (reached.1 even)).imp_left Eq.symm

/-- Three operations, of which only the last two overlap. -/
def threeOps : AsyncDepsInfo := ⟨[∅, ∅, ∅], [], by simp⟩

def threeCycles : Cycles := ⟨fun op => [0, 5, 10].getD op 0, fun op => [5, 20, 25].getD op 0⟩

theorem threeOps_depends : ∃ after,
    updateControlEdgesInDepsInfo threeOps [⟨0, 1⟩, ⟨1, 2⟩] threeCycles = .ok after ∧
      ∀ start stop dropped, ControlPath [⟨0, 1⟩, ⟨1, 2⟩] threeCycles start stop dropped →
        Even dropped → start = stop ∨ Relation.TransGen (IsDep after.depsMap) start stop :=
  updateControlEdgesInDepsInfo_depends threeCycles (by decide)

/-- The first operation ends before the last one begins. -/
theorem threeOps_not_depends : ∃ after,
    updateControlEdgesInDepsInfo threeOps [⟨0, 1⟩, ⟨1, 2⟩] threeCycles = .ok after ∧
      (∀ edge ∈ [(⟨0, 1⟩ : ControlEdge), ⟨1, 2⟩],
        threeCycles.cycleBegin edge.source ≤ threeCycles.cycleBegin edge.sink) ∧
      Relation.TransGen (fun source sink => ⟨source, sink⟩ ∈ [(⟨0, 1⟩ : ControlEdge), ⟨1, 2⟩]) 0 2 ∧
      threeCycles.cycleEnd 0 ≤ threeCycles.cycleBegin 2 ∧
      ¬ Relation.TransGen (IsDep after.depsMap) 0 2 := by
  refine ⟨_, rfl, by decide, .tail (.single mem_cons_self)
    (mem_cons_of_mem _ mem_cons_self), by decide, fun depends => ?_⟩
  obtain ⟨dep, -, isDep⟩ := Relation.TransGen.tail'_iff.mp depends
  exact Finset.notMem_empty dep isDep

end NpuPlugin
