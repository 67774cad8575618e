/-
This file proves that the generator refines a model with one entry for each address: the stored
intervals are disjoint and cover the accessed addresses, and the owners of an address are those of
the accesses that contain it. One turn of the loop over the overlapped intervals puts back the part
in front of the intersection, the intersection with its new owners, and the rest.
-/

import NpuPlugin.ControlEdges.IntervalSet

namespace NpuPlugin.ControlEdgeGenerator

open DisjointIntervalSet IntervalUtils List Nat Pieces Prod

def triple (piece : Owned) : Nat × Nat × ProdConsType := (piece.first, piece.last, piece.value)

/-- The pieces one turn puts back for an overlapped piece. -/
def parts (currInterval : ScheduledOpOneResource) (newProdCons : ProdConsType)
    (currRemBeg currRemEnd : Nat) (piece : Owned) : List Owned :=
  (if piece.first < currRemBeg then [⟨piece.first, currRemBeg - 1, piece.value⟩]
    else if currRemBeg < piece.first then
      [⟨currRemBeg, piece.first - 1, ProdConsType.ofProducer currInterval⟩]
    else []) ++
  (⟨max currRemBeg piece.first, min currRemEnd piece.last, newProdCons⟩ ::
    if currRemEnd < piece.last then [⟨currRemEnd + 1, piece.last, piece.value⟩] else [])

def remainder (currRemEnd : Nat) (piece : Owned) : Nat × Nat :=
  if piece.last < currRemEnd then (piece.last + 1, currRemEnd) else (2 ^ 64 - 1, 0)

variable {abeg aend bbeg bend : Nat}

theorem intersects_eq_true (first : abeg ≤ aend) (second : bbeg ≤ bend) (meets : bbeg ≤ aend)
    (begun : abeg ≤ bend) : intersects abeg aend bbeg bend = true :=
  decide_eq_true (max_le (le_min first begun) (le_min meets second))

theorem isSubset_iff (nonempty : abeg ≤ aend) :
    isSubset abeg aend bbeg bend = true ↔ bbeg ≤ abeg ∧ aend ≤ bend := by
  unfold isSubset
  split
  · rename_i apart
    refine iff_of_false Bool.false_ne_true fun inside => ?_
    rw [max_eq_left inside.1, min_eq_left inside.2] at apart
    exact absurd nonempty apart.not_ge
  · rw [decide_eq_true_eq, max_eq_left_iff, min_eq_left_iff]

theorem intervalXor_eq (first : abeg ≤ aend) (second : bbeg ≤ bend) (meets : bbeg ≤ aend)
    (begun : abeg ≤ bend) (firstFits : aend < 2 ^ 64) (secondFits : bend < 2 ^ 64) :
    intervalXor abeg aend bbeg bend =
      (if min abeg bbeg < max abeg bbeg then [(min abeg bbeg, max abeg bbeg - 1)] else []) ++
        if min aend bend < max aend bend then [(min aend bend + 1, max aend bend)] else [] := by
  unfold intervalXor
  rw [intersects_eq_true first second meets begun, if_pos rfl]
  dsimp only
  congr 1
  · by_cases pos : max abeg bbeg = 0
    · have wrapped : Words.sub 64 (max abeg bbeg) 1 = 2 ^ 64 - 1 := by rw [pos]; rfl
      rw [wrapped, if_neg (by omega), if_neg (by omega)]
    · rw [Words.sub_of_le 64 _ 1 (pos_of_ne_zero pos) (by decide) (by omega)]
      by_cases shorter : min abeg bbeg < max abeg bbeg
      · rw [if_pos (by omega), if_pos shorter]
      · rw [if_neg (by omega), if_neg shorter]
  · by_cases shorter : min aend bend < max aend bend
    · rw [Words.add_of_lt 64 _ _ (by omega), if_pos (by omega), if_pos shorter]
    · rw [if_neg shorter, if_neg fun beyond => ?_]
      by_cases last : min aend bend + 1 < 2 ^ 64
      · rw [Words.add_of_lt 64 _ _ last] at beyond
        omega
      · have top : min aend bend = 2 ^ 64 - 1 := by omega
        rw [top] at beyond
        exact absurd beyond.2 (not_lt_zero _)

theorem replacement_eq (currInterval : ScheduledOpOneResource) (newProdCons : ProdConsType)
    {currRemBeg currRemEnd : Nat} (piece : Owned) (nonempty : piece.first ≤ piece.last)
    (remains : currRemBeg ≤ currRemEnd) (meets : currRemBeg ≤ piece.last)
    (begun : piece.first ≤ currRemEnd) (pieceFits : piece.last < 2 ^ 64)
    (currFits : currRemEnd < 2 ^ 64) :
    replacement currInterval piece.first piece.last piece.value newProdCons currRemBeg
        currRemEnd =
      ((parts currInterval newProdCons currRemBeg currRemEnd piece).map triple,
        remainder currRemEnd piece) := by
  have subset : ∀ first last, first ≤ last →
      isSubset first last currRemBeg currRemEnd = decide (currRemBeg ≤ first ∧ last ≤ currRemEnd) :=
    fun first last ordered => Bool.eq_iff_iff.mpr ((isSubset_iff ordered).trans
      decide_eq_true_iff.symm)
  unfold replacement parts remainder
  rw [intervalXor_eq nonempty remains meets begun pieceFits currFits]
  have atBegin : piece.first < currRemBeg ∨ piece.first = currRemBeg ∨ currRemBeg < piece.first :=
    lt_trichotomy _ _
  have atEnd : piece.last < currRemEnd ∨ piece.last = currRemEnd ∨ currRemEnd < piece.last :=
    lt_trichotomy _ _
  rcases atBegin with before | same | after <;> rcases atEnd with short | level | long <;>
    simp (disch := omega) only [subset, if_pos, if_neg, min_eq_left, min_eq_right, max_eq_left,
      max_eq_right, nil_append, cons_append, map_cons, map_nil, triple,
      append_nil, decide_eq_true_eq]

/-! ### The pieces put back -/

/-- The owners of an address that has owners, after an access. -/
def ownersAfter (currInterval : ScheduledOpOneResource) (prodCons : ProdConsType) : ProdConsType :=
  if currInterval.isIntervalProducer then
    if prodCons.producers.all (ScheduledOpOneResource.canProducersCoexist currInterval) then
      prodCons.addProducer currInterval
    else prodCons.newProducer currInterval
  else prodCons.addConsumer currInterval

def stepOwners (currInterval : ScheduledOpOneResource) : Option ProdConsType → ProdConsType
  | none => ProdConsType.ofProducer currInterval
  | some prodCons => ownersAfter currInterval prodCons

variable {currRemBeg currRemEnd : Nat} {piece : Owned} (currInterval : ScheduledOpOneResource)

/-- The new owners do not depend on the edges emitted before. -/
theorem updateOwners_fst (prodCons : ProdConsType) (edges : List ControlEdge) :
    (updateOwners currInterval prodCons edges).1 = ownersAfter currInterval prodCons := by
  unfold updateOwners ownersAfter
  split
  · split
    · rfl
    · split
      · rfl
      · rfl
  · rfl

theorem parts_bounds {currInterval : ScheduledOpOneResource} {newProdCons : ProdConsType}
    (nonempty : piece.first ≤ piece.last) (remains : currRemBeg ≤ currRemEnd)
    (meets : currRemBeg ≤ piece.last) :
    ∀ part ∈ parts currInterval newProdCons currRemBeg currRemEnd piece,
      min currRemBeg piece.first ≤ part.first ∧ part.last ≤ piece.last := by
  intro part mem
  rcases mem_append.mp mem with before | rest
  · split at before
    · rw [mem_singleton.mp before]
      exact ⟨min_le_right _ _, by dsimp only; omega⟩
    · split at before
      · rw [mem_singleton.mp before]
        exact ⟨min_le_left _ _, by dsimp only; omega⟩
      · exact absurd before not_mem_nil
  · rcases mem_cons.mp rest with rfl | after
    · exact ⟨(min_le_left _ _).trans (le_max_left _ _), min_le_right _ _⟩
    · split at after
      · rw [mem_singleton.mp after]
        exact ⟨by dsimp only; omega, le_rfl⟩
      · exact absurd after not_mem_nil

theorem parts_ordered (newProdCons : ProdConsType) (nonempty : piece.first ≤ piece.last)
    (remains : currRemBeg ≤ currRemEnd) (meets : currRemBeg ≤ piece.last)
    (begun : piece.first ≤ currRemEnd) :
    Ordered (parts currInterval newProdCons currRemBeg currRemEnd piece) := by
  have inter : max currRemBeg piece.first ≤ min currRemEnd piece.last :=
    max_le (le_min remains meets) (le_min begun nonempty)
  refine ordered_append.mpr ⟨?_, ?_, ?_⟩
  · split
    · exact ordered_singleton (by dsimp only; omega)
    · split
      · exact ordered_singleton (by dsimp only; omega)
      · exact ordered_nil
  · refine singleton_append ▸ ordered_append.mpr ⟨ordered_singleton inter, ?_, ?_⟩
    · split
      · exact ordered_singleton (by dsimp only; omega)
      · exact ordered_nil
    · intro part atInter later after
      rw [mem_singleton.mp atInter]
      split at after
      · rw [mem_singleton.mp after]
        dsimp only
        omega
      · exact absurd after not_mem_nil
  · intro part before later rest
    have belowInter : part.last < max currRemBeg piece.first := by
      split at before
      · rw [mem_singleton.mp before]
        dsimp only
        omega
      · split at before
        · rw [mem_singleton.mp before]
          dsimp only
          omega
        · exact absurd before not_mem_nil
    rcases mem_cons.mp rest with rfl | after
    · exact belowInter
    · split at after
      · rw [mem_singleton.mp after]
        dsimp only
        omega
      · exact absurd after not_mem_nil

theorem valueAt_parts (nonempty : piece.first ≤ piece.last) (remains : currRemBeg ≤ currRemEnd)
    (meets : currRemBeg ≤ piece.last) (begun : piece.first ≤ currRemEnd) (point : Nat) :
    valueAt (parts currInterval (ownersAfter currInterval piece.value) currRemBeg
        currRemEnd piece) point =
      if currRemBeg ≤ point ∧ point ≤ min currRemEnd piece.last then
        some (stepOwners currInterval (valueAt [piece] point))
      else valueAt [piece] point := by
  have atBegin : piece.first < currRemBeg ∨ piece.first = currRemBeg ∨ currRemBeg < piece.first :=
    lt_trichotomy _ _
  have atEnd : currRemEnd < piece.last ∨ ¬ currRemEnd < piece.last := em _
  unfold parts
  rcases atBegin with before | same | after <;> rcases atEnd with long | short <;>
    simp (disch := omega) only [if_pos, if_neg, nil_append, cons_append, valueAt_cons,
      valueAt_nil, Piece.Contains] <;> grind [stepOwners]

/-! ### One turn -/

theorem insertAll_spec {front back : List Owned} (pieces : List Owned)
    (ordered : Ordered (front ++ (pieces ++ back))) :
    insertAll (ends (front ++ back)) (pieces.map triple) = ends (front ++ (pieces ++ back)) := by
  induction pieces generalizing front with
  | nil => rfl
  | cons piece rest ih =>
    have headOrdered : Ordered (front ++ piece :: back) :=
      ordered.sublist (((sublist_append_right rest back).cons_cons piece).append_left front)
    rw [cons_append, append_cons] at ordered ⊢
    rw [map_cons]
    unfold insertAll
    rw [foldl_cons]
    dsimp only [triple]
    rw [insert_spec headOrdered, append_cons]
    exact ih ordered

/-- The state of the loop in front of the pieces still to look at. -/
structure OverlayAt (front meeting above : List Owned) (state : Overlay) : Prop where
  tree : state.tree = ends (front ++ (meeting ++ above))
  qitr : state.qitr = ⟨start (meeting ++ above), start above⟩
  ordered : Ordered (front ++ (meeting ++ above))
  bounded : ∀ piece ∈ front ++ (meeting ++ above), piece.last < 2 ^ 64

/-- The pieces still to look at meet what is left of the current interval. -/
structure Remains (front meeting : List Owned) (currRemBeg currRemEnd : Nat) : Prop where
  nonempty : currRemBeg ≤ currRemEnd
  passed : ∀ piece ∈ front, piece.last < currRemBeg
  meets : ∀ piece ∈ meeting, currRemBeg ≤ piece.last ∧ piece.first ≤ currRemEnd
  fits : currRemEnd < 2 ^ 64

theorem overlayTurn_spec {front rest above : List Owned} {state : Overlay}
    (here : OverlayAt front (piece :: rest) above state)
    (remains : Remains front (piece :: rest) state.currRemBeg state.currRemEnd) :
    ∃ next, overlayTurn currInterval state = some next ∧
      OverlayAt (front ++ parts currInterval (ownersAfter currInterval piece.value)
        state.currRemBeg state.currRemEnd piece) rest above next ∧
      next.edges = state.edges ++ (updateOwners currInterval piece.value state.edges).2 ∧
      (next.currRemBeg, next.currRemEnd) = remainder state.currRemEnd piece := by
  have ordered : Ordered (front ++ piece :: (rest ++ above)) := here.ordered
  obtain ⟨_, _, nonempty, _, _⟩ := ordered_middle ordered
  obtain ⟨meets, begun⟩ := remains.meets piece mem_cons_self
  have pieceFits := here.bounded piece (mem_append_right _ mem_cons_self)
  have notEnd : ¬ state.qitr.atEnd = true := by
    rw [here.qitr]
    exact fun atEnd => cons_ne_nil _ _
      ((atEnd_iff (ordered_append.mp here.ordered).2.1).mp atEnd)
  have found : state.qitr.deref state.tree = some (piece.first, piece.last, piece.value) := by
    rw [here.qitr, here.tree]
    exact deref_start ordered _
  have advanced : state.qitr.advance state.tree = ⟨start (rest ++ above), start above⟩ := by
    rw [here.qitr, here.tree]
    exact advance_start ordered _
  have erased : (erase state.tree piece.first piece.last).2 = ends (front ++ (rest ++ above)) := by
    rw [here.tree]
    exact congrArg snd (erase_spec ordered)
  have crosses := intersects_eq_true nonempty remains.nonempty meets begun
  set placed := parts currInterval (ownersAfter currInterval piece.value) state.currRemBeg
    state.currRemEnd piece with placedEq
  have bounds : ∀ part ∈ placed, min state.currRemBeg piece.first ≤ part.first ∧
      part.last ≤ piece.last := parts_bounds nonempty remains.nonempty meets
  have placedOrdered : Ordered (front ++ (placed ++ (rest ++ above))) := by
    obtain ⟨frontOrdered, backOrdered, _, passed, ahead⟩ := ordered_middle ordered
    refine ordered_append.mpr ⟨frontOrdered, ordered_append.mpr ⟨parts_ordered _ _ nonempty
      remains.nonempty meets begun, backOrdered, ?_⟩, ?_⟩
    · exact fun part mem later inBack => lt_of_le_of_lt (bounds part mem).2 (ahead later inBack)
    · intro other inFront later inRest
      rcases mem_append.mp inRest with inPlaced | inBack
      · have lower := (bounds later inPlaced).1
        have first := remains.passed other inFront
        have second := passed other inFront
        omega
      · exact (lt_of_lt_of_le (passed other inFront) nonempty).trans (ahead later inBack)
  refine ⟨⟨ends (front ++ (placed ++ (rest ++ above))),
    state.edges ++ (updateOwners currInterval piece.value state.edges).2,
    (remainder state.currRemEnd piece).1, (remainder state.currRemEnd piece).2,
    ⟨start (rest ++ above), start above⟩⟩, ?_, ⟨?_, rfl, ?_, ?_⟩, rfl, rfl⟩
  · unfold overlayTurn
    rw [if_neg notEnd, found]
    dsimp only
    rw [if_pos crosses, updateOwners_fst, replacement_eq currInterval _ piece nonempty
      remains.nonempty meets begun pieceFits remains.fits, erased, advanced]
    rw [insertAll_spec _ placedOrdered]
  · rw [append_assoc]
  · rw [append_assoc]
    exact placedOrdered
  · rw [append_assoc]
    intro other mem
    rcases mem_append.mp mem with inFront | inRest
    · exact here.bounded other (mem_append_left _ inFront)
    · rcases mem_append.mp inRest with inPlaced | inBack
      · exact lt_of_le_of_lt (bounds other inPlaced).2 pieceFits
      · exact here.bounded other (mem_append_right _ (mem_cons_of_mem _ inBack))

/-! ### The loop -/

/-- The edges of each overlapped piece were emitted, after some of the others. -/
structure Emitted (currInterval : ScheduledOpOneResource) (meeting : List Owned)
    (edges edges' : List ControlEdge) : Prop where
  prefix_edges : edges <+: edges'
  each : ∀ piece ∈ meeting, ∃ before, edges <+: before ∧
    before ++ (updateOwners currInterval piece.value before).2 <+: edges'

/-- What the loop leaves: up to `reached` the addresses of the current interval made a step, and
from there on it is still to be inserted. -/
structure Overlaid (currInterval : ScheduledOpOneResource) (front meeting above : List Owned)
    (currRemBeg currRemEnd : Nat) (placed : List Owned) (reached : Nat) (last : Overlay) :
    Prop where
  tree : last.tree = ends (front ++ (placed ++ above))
  ordered : Ordered (front ++ (placed ++ above))
  bounded : ∀ piece ∈ front ++ (placed ++ above), piece.last < 2 ^ 64
  value : ∀ point, valueAt placed point =
    if currRemBeg ≤ point ∧ point < reached then
      some (stepOwners currInterval (valueAt meeting point))
    else valueAt meeting point
  reached_ge : currRemBeg ≤ reached
  rest : (last.currRemBeg = reached ∧ last.currRemEnd = currRemEnd ∧ reached ≤ currRemEnd ∧
      ∀ piece ∈ front ++ placed, piece.last < reached) ∨
    reached = currRemEnd + 1 ∧ last.currRemEnd < last.currRemBeg

theorem overlayLoop_done {front above : List Owned} {state : Overlay}
    (here : OverlayAt front [] above state) (turns : Nat) :
    overlayLoop currInterval turns state = state := by
  have atEnd : state.qitr.atEnd = true := by
    rw [here.qitr]
    exact (atEnd_iff (ordered_append.mp here.ordered).2.1).mpr rfl
  cases turns with
  | zero => rfl
  | succ turns =>
    unfold overlayLoop overlayTurn
    rw [if_pos atEnd]

theorem Emitted.cons {currInterval : ScheduledOpOneResource} {piece : Owned} {rest : List Owned}
    {edges edges' : List ControlEdge} (later : Emitted currInterval rest
      (edges ++ (updateOwners currInterval piece.value edges).2) edges') :
    Emitted currInterval (piece :: rest) edges edges' := by
  refine ⟨(prefix_append _ _).trans later.prefix_edges, fun other mem => ?_⟩
  rcases mem_cons.mp mem with rfl | inRest
  · exact ⟨edges, prefix_rfl, later.prefix_edges⟩
  · obtain ⟨before, started, emitted⟩ := later.each other inRest
    exact ⟨before, (prefix_append _ _).trans started, emitted⟩

theorem overlayLoop_spec {currInterval : ScheduledOpOneResource} {above : List Owned}
    (meeting : List Owned) (front : List Owned) (turns : Nat) (state : Overlay)
    (here : OverlayAt front meeting above state)
    (remains : Remains front meeting state.currRemBeg state.currRemEnd)
    (enough : meeting.length ≤ turns) :
    ∃ placed reached, Overlaid currInterval front meeting above state.currRemBeg
        state.currRemEnd placed reached (overlayLoop currInterval turns state) ∧
      Emitted currInterval meeting state.edges
        (overlayLoop currInterval turns state).edges := by
  induction meeting generalizing front turns state with
  | nil =>
    rw [overlayLoop_done currInterval here]
    refine ⟨[], state.currRemBeg, ⟨here.tree, here.ordered, here.bounded, fun point => ?_,
      le_rfl, Or.inl ⟨rfl, rfl, remains.nonempty, ?_⟩⟩, ⟨prefix_rfl, forall_mem_nil _⟩⟩
    · rw [if_neg (fun inside => absurd inside.1 inside.2.not_ge)]
    · rw [append_nil]
      exact remains.passed
  | cons piece rest ih =>
    obtain ⟨turns, rfl⟩ : ∃ fewer, turns = fewer + 1 :=
      ⟨turns - 1, by rw [length_cons] at enough; omega⟩
    have ordered : Ordered (front ++ piece :: (rest ++ above)) := here.ordered
    obtain ⟨_, _, nonempty, -, ahead⟩ := ordered_middle ordered
    obtain ⟨meets, begun⟩ := remains.meets piece mem_cons_self
    obtain ⟨next, turn, here', edges, remaining⟩ := overlayTurn_spec currInterval here remains
    have unrolled : overlayLoop currInterval (turns + 1) state =
        overlayLoop currInterval turns next := by
      conv_lhs => unfold overlayLoop
      rw [turn]
    rw [unrolled]
    set placed := parts currInterval (ownersAfter currInterval piece.value) state.currRemBeg
      state.currRemEnd piece with placedEq
    have values : ∀ point, valueAt placed point = _ :=
      valueAt_parts currInterval nonempty remains.nonempty meets begun
    have bounds : ∀ part ∈ placed, min state.currRemBeg piece.first ≤ part.first ∧
        part.last ≤ piece.last := parts_bounds nonempty remains.nonempty meets
    by_cases short : piece.last < state.currRemEnd
    · rw [remainder, if_pos short, mk.injEq] at remaining
      obtain ⟨remBeg, remEnd⟩ := remaining
      have remains' : Remains (front ++ placed) rest next.currRemBeg next.currRemEnd := by
        rw [remBeg, remEnd]
        refine ⟨short, fun other mem => ?_, fun other mem => ?_, remains.fits⟩
        · rcases mem_append.mp mem with inFront | inPlaced
          · have before := remains.passed other inFront
            omega
          · exact lt_succ_of_le (bounds other inPlaced).2
        · have begins := ahead other (mem_append_left _ mem)
          have whole := ordered.nonempty other (mem_append_right _
            (mem_cons_of_mem _ (mem_append_left _ mem)))
          exact ⟨by omega, (remains.meets other (mem_cons_of_mem _ mem)).2⟩
      obtain ⟨placed', reached, overlaid, emitted⟩ := ih (front ++ placed) turns
        next here' remains' (le_of_succ_le_succ enough)
      rw [remBeg, remEnd] at overlaid
      rw [edges] at emitted
      have beyond := overlaid.reached_ge
      refine ⟨placed ++ placed', reached, ⟨?_, ?_, ?_, fun point => ?_, by omega, ?_⟩,
        emitted.cons⟩
      · rw [overlaid.tree, append_assoc, append_assoc]
      · have whole := overlaid.ordered
        rwa [append_assoc, ← append_assoc placed] at whole
      · have whole := overlaid.bounded
        rwa [append_assoc, ← append_assoc placed] at whole
      · by_cases inside : point ≤ piece.last
        · have restNone : valueAt rest point = none := valueAt_eq_none fun other mem within => by
            have begins := ahead other (mem_append_left _ mem)
            have := within.1
            omega
          have laterNone : valueAt placed' point = none := by
            rw [overlaid.value, if_neg (by omega), restNone]
          rw [valueAt_append, laterNone, Option.or_none, values,
            ← singleton_append (l := rest), valueAt_append, restNone, Option.or_none]
          by_cases atCurr : state.currRemBeg ≤ point
          · rw [if_pos (by omega), if_pos (by omega)]
          · rw [if_neg (by omega), if_neg (by omega)]
        · have placedPassed : ∀ part ∈ placed, part.last < point := fun part mem =>
            lt_of_le_of_lt (bounds part mem).2 (not_le.mp inside)
          have headNone : valueAt (piece :: rest) point = valueAt rest point := by
            rw [valueAt_cons, if_neg fun within => inside within.2]
          rw [valueAt_after placedPassed, overlaid.value, headNone]
          by_cases atCurr : point < reached
          · rw [if_pos (by omega), if_pos (by omega)]
          · rw [if_neg (by omega), if_neg (by omega)]
      · rw [← append_assoc]
        exact overlaid.rest
    · rw [remainder, if_neg short, mk.injEq] at remaining
      have last : rest = [] := by
        refine eq_nil_iff_forall_not_mem.mpr fun other mem => ?_
        have begins := ahead other (mem_append_left _ mem)
        have starts := (remains.meets other (mem_cons_of_mem _ mem)).2
        omega
      subst last
      rw [overlayLoop_done currInterval here']
      refine ⟨placed, state.currRemEnd + 1, ⟨?_, ?_, ?_, fun point => ?_, ?_, Or.inr ⟨rfl, ?_⟩⟩,
        Emitted.cons ⟨edges ▸ prefix_rfl, forall_mem_nil _⟩⟩
      · rw [here'.tree, append_assoc]
        rfl
      · have whole := here'.ordered
        rwa [append_assoc] at whole
      · have whole := here'.bounded
        rwa [append_assoc] at whole
      · rw [values]
        by_cases atCurr : state.currRemBeg ≤ point ∧ point ≤ state.currRemEnd
        · rw [if_pos (by omega), if_pos (by omega)]
        · rw [if_neg (by omega), if_neg (by omega)]
      · have := remains.nonempty
        omega
      · rw [remaining.1, remaining.2]
        decide

open Option Or

/-! ### One address -/

def Accesses (currInterval : ScheduledOpOneResource) (address : Nat) : Prop :=
  currInterval.addressStart ≤ address ∧ address ≤ currInterval.addressEnd

instance (currInterval : ScheduledOpOneResource) (address : Nat) :
    Decidable (Accesses currInterval address) :=
  inferInstanceAs (Decidable (_ ∧ _))

def addressStep (currInterval : ScheduledOpOneResource) (address : Nat)
    (owners : Option ProdConsType) : Option ProdConsType :=
  if Accesses currInterval address then some (stepOwners currInterval owners) else owners

def addressOwners (intervals : List ScheduledOpOneResource) (address : Nat) : Option ProdConsType :=
  intervals.foldl (fun owners currInterval => addressStep currInterval address owners) none

/-- A tree that stores ordered pieces of 64-bit addresses. -/
structure Stores (tree : EndPointTree) (pieces : List Owned) : Prop where
  tree : tree = ends pieces
  ordered : Ordered pieces
  bounded : ∀ piece ∈ pieces, piece.last < 2 ^ 64

/-! ### Merging -/

/-- The state of the loop between the pieces it keeps. -/
structure MergeAt (front rest above : List Owned) (state : Merge) : Prop where
  tree : state.tree = ends (front ++ (rest ++ above))
  qitr : state.qitr = ⟨start (rest ++ above), start above⟩
  ordered : Ordered (front ++ (rest ++ above))
  ahead : ∀ piece ∈ rest, state.prevRightEnd < piece.first
  bounded : ∀ piece ∈ rest, piece.last < 2 ^ 64
  fits : state.prevRightEnd < 2 ^ 64

/-- What the loop leaves: the erased pieces continued the one in front with the same owners. -/
structure Merged (prodCons : ProdConsType) (front rest above : List Owned) (prevRightEnd : Nat)
    (merged left : List Owned) (last : Merge) : Prop where
  split : rest = merged ++ left
  tree : last.tree = ends (front ++ (left ++ above))
  extended : prevRightEnd ≤ last.prevRightEnd
  fits : last.prevRightEnd < 2 ^ 64
  ahead : ∀ piece ∈ left, last.prevRightEnd < piece.first
  value : ∀ point, valueAt merged point =
    if prevRightEnd < point ∧ point ≤ last.prevRightEnd then some prodCons else none

theorem mergeLoop_spec (prodCons : ProdConsType) {above : List Owned} (front : List Owned)
    (turns : Nat) (rest : List Owned) (state : Merge) (here : MergeAt front rest above state) :
    ∃ merged left, Merged prodCons front rest above state.prevRightEnd merged left
      (mergeLoop prodCons turns state) := by
  have stopped : Merged prodCons front rest above state.prevRightEnd [] rest state := by
    refine ⟨rfl, here.tree, le_rfl, here.fits, here.ahead, fun point => ?_⟩
    rw [if_neg fun inside => absurd inside.1 inside.2.not_gt]
    rfl
  induction turns generalizing rest state with
  | zero => exact ⟨[], rest, stopped⟩
  | succ turns ih =>
    unfold mergeLoop
    by_cases atEnd : state.qitr.atEnd = true
    · rw [if_pos atEnd]
      exact ⟨[], rest, stopped⟩
    rw [if_neg atEnd]
    cases rest with
    | nil =>
      rw [here.qitr] at atEnd
      exact absurd ((atEnd_iff (ordered_append.mp here.ordered).2.1).mpr rfl) atEnd
    | cons piece later =>
      have ordered : Ordered (front ++ piece :: (later ++ above)) := here.ordered
      obtain ⟨_, _, nonempty, _, ahead⟩ := ordered_middle ordered
      have found : state.qitr.deref state.tree = some (piece.first, piece.last, piece.value) := by
        rw [here.qitr, here.tree]
        exact deref_start ordered _
      rw [found]
      dsimp only
      split
      · rename_i continues
        have follows : state.prevRightEnd + 1 = piece.first := by
          have begins := here.ahead piece mem_cons_self
          have inWord := here.bounded piece mem_cons_self
          have added := continues.2
          rwa [Words.add_of_lt 64 _ _ (by omega)] at added
        have advanced : state.qitr.advance state.tree = ⟨start (later ++ above), start above⟩ := by
          rw [here.qitr, here.tree]
          exact advance_start ordered _
        have erased : (erase state.tree piece.first piece.last).2 =
            ends (front ++ (later ++ above)) := by
          rw [here.tree]
          exact congrArg snd (erase_spec ordered)
        have next : MergeAt front later above
            ⟨ends (front ++ (later ++ above)), ⟨start (later ++ above), start above⟩, piece.last⟩ :=
          ⟨rfl, rfl, ordered.sublist ((sublist_cons_self piece _).append_left front),
            (forall_mem_append.mp ahead).1,
            (forall_mem_cons.mp here.bounded).2,
            here.bounded piece mem_cons_self⟩
        rw [advanced, erased]
        obtain ⟨merged, left, res⟩ := ih later _ next
          ⟨rfl, rfl, le_rfl, next.fits, next.ahead, fun point => by
            rw [if_neg fun inside => absurd inside.1 inside.2.not_gt]
            rfl⟩
        have extended := res.extended
        dsimp only at extended
        refine ⟨piece :: merged, left, ⟨by rw [res.split, cons_append], res.tree,
          by omega, res.fits, res.ahead, fun point => ?_⟩⟩
        rw [valueAt_cons, res.value]
        by_cases inPiece : piece.Contains point
        · have lower := inPiece.1
          have upper := inPiece.2
          rw [if_pos inPiece, if_pos (by omega), continues.1]
        · rw [if_neg inPiece]
          have outside : ¬ (piece.first ≤ point ∧ point ≤ piece.last) := inPiece
          by_cases beyond : piece.last < point ∧ point ≤ (mergeLoop prodCons turns
              ⟨ends (front ++ (later ++ above)), ⟨start (later ++ above), start above⟩,
                piece.last⟩).prevRightEnd
          · rw [if_pos beyond, if_pos (by omega)]
          · rw [if_neg beyond, if_neg (by omega)]
      · exact ⟨[], piece :: later, stopped⟩

variable {tree : EndPointTree} {pieces : List Owned}

theorem mergeAbuttingIntervals_spec {currInterval : ScheduledOpOneResource}
    (producer : currInterval.isIntervalProducer = true)
    (nonempty : currInterval.addressStart ≤ currInterval.addressEnd) (stores : Stores tree pieces) :
    ∃ tree' pieces', mergeAbuttingIntervals currInterval tree = .ok tree' ∧
      Stores tree' pieces' ∧ ∀ point, valueAt pieces' point = valueAt pieces point := by
  obtain ⟨below, meeting, above, whole, passed, meets, ahead⟩ :=
    stores.ordered.split currInterval.addressStart currInterval.addressEnd
  have same : ∃ tree' pieces', (Except.ok tree : Except String EndPointTree) = .ok tree' ∧
      Stores tree' pieces' ∧ ∀ point, valueAt pieces' point = valueAt pieces point :=
    ⟨tree, pieces, rfl, stores, fun _ => rfl⟩
  have ordered := stores.ordered
  rw [whole] at ordered
  have queried : query tree currInterval.addressStart currInterval.addressEnd =
      ⟨start (meeting ++ above), start above⟩ := by
    rw [stores.tree, whole]
    exact query_spec ordered passed meets ahead nonempty
  unfold mergeAbuttingIntervals
  rw [producer, if_neg (by decide), queried]
  by_cases atEnd : (IntervalIterator.mk (start (meeting ++ above)) (start above)).atEnd = true
  · rw [if_pos atEnd]
    exact same
  rw [if_neg atEnd]
  cases meeting with
  | nil => exact absurd ((atEnd_iff (ordered_append.mp ordered).2.1).mpr rfl) atEnd
  | cons piece rest =>
    have around : Ordered (below ++ piece :: (rest ++ above)) := ordered
    have treeEq : tree = ends (below ++ piece :: (rest ++ above)) := by
      rw [stores.tree, whole, cons_append]
    have found := deref_start around (start above)
    have advanced := advance_start around (start above)
    rw [← treeEq] at found advanced
    rw [cons_append, found]
    dsimp only
    split
    · exact same
    · rename_i owned
      have value : piece.value = ProdConsType.ofProducer currInterval := not_not.mp owned
      obtain ⟨_, _, pieceNonempty, belowPiece, afterPiece⟩ := ordered_middle around
      have inBounds : ∀ other ∈ piece :: rest, other.last < 2 ^ 64 := fun other mem =>
        stores.bounded other (whole ▸ mem_append_right _ (mem_append_left _ mem))
      have here : MergeAt (below ++ [piece]) rest above
          ⟨tree, ⟨start (rest ++ above), start above⟩, piece.last⟩ := by
        refine ⟨?_, rfl, ?_, (forall_mem_append.mp afterPiece).1,
          (forall_mem_cons.mp inBounds).2,
          inBounds piece mem_cons_self⟩
        · rw [append_assoc]
          exact treeEq
        · rw [append_assoc]
          exact around
      obtain ⟨merged, left, res⟩ := mergeLoop_spec (ProdConsType.ofProducer currInterval)
        (below ++ [piece]) tree.length rest _ here
      rw [advanced]
      set last := mergeLoop (ProdConsType.ofProducer currInterval) tree.length
        ⟨tree, ⟨start (rest ++ above), start above⟩, piece.last⟩ with lastEq
      have lastTree : last.tree = ends (below ++ piece :: (left ++ above)) := by
        rw [res.tree, append_assoc]
        rfl
      have fewer : Ordered (below ++ piece :: (left ++ above)) := by
        refine around.sublist (List.Sublist.append_left (List.Sublist.cons_cons piece
          (List.Sublist.append_right ?_ above)) below)
        rw [res.split]
        exact sublist_append_right merged left
      have fewerBounded : ∀ other ∈ below ++ piece :: (left ++ above), other.last < 2 ^ 64 := by
        intro other mem
        refine stores.bounded other ?_
        rw [whole, res.split, cons_append, append_assoc]
        rcases mem_append.mp mem with inBelow | inRest
        · exact mem_append_left _ inBelow
        · refine mem_append_right _ ?_
          rcases mem_cons.mp inRest with rfl | later
          · exact mem_cons_self
          · exact mem_cons_of_mem _ (mem_append_right _ later)
      have values : ∀ (head : Owned) (point : Nat), valueAt [head] point =
          (valueAt [piece] point).or (valueAt merged point) →
          valueAt (below ++ head :: (left ++ above)) point = valueAt pieces point := by
        intro head point same
        rw [whole, res.split, cons_append, append_assoc, valueAt_append,
          valueAt_append below, ← singleton_append, valueAt_append, same,
          ← singleton_append (l := merged ++ _), valueAt_append [piece],
          valueAt_append merged, Option.or_assoc]
      split
      · rename_i further
        set merged' : Owned :=
          ⟨piece.first, last.prevRightEnd, ProdConsType.ofProducer currInterval⟩
        have erased : (erase last.tree piece.first piece.last).2 =
            ends (below ++ (left ++ above)) := by
          rw [lastTree]
          exact congrArg snd (erase_spec fewer)
        have inMerged : valueAt merged last.prevRightEnd =
            some (ProdConsType.ofProducer currInterval) := by
          rw [res.value, if_pos ⟨further, le_rfl⟩]
        obtain ⟨edge, edgeMerged, edgeContains, _⟩ := valueAt_eq_some inMerged
        have beforeAbove : ∀ other ∈ above, last.prevRightEnd < other.first := by
          intro other mem
          have across := (ordered_append.mp (ordered_append.mp ordered).2.1).2.2 edge
            (mem_cons_of_mem _ (res.split ▸ mem_append_left _ edgeMerged)) other mem
          exact edgeContains.2.trans_lt across
        have extended : Ordered (below ++ merged' :: (left ++ above)) := by
          obtain ⟨belowOrdered, backOrdered, _, _, _⟩ := ordered_middle fewer
          refine ordered_append.mpr ⟨belowOrdered, singleton_append ▸ ordered_append.mpr
            ⟨ordered_singleton (pieceNonempty.trans (le_of_lt further)), backOrdered, ?_⟩, ?_⟩
          · intro other inSingle later inBack
            rw [mem_singleton.mp inSingle]
            exact (mem_append.mp inBack).elim (res.ahead later) (beforeAbove later)
          · intro other inBelow later inRest
            rcases mem_cons.mp inRest with rfl | inBack
            · exact belowPiece other inBelow
            · exact (ordered_append.mp fewer).2.2 other inBelow later
                (mem_cons_of_mem _ inBack)
        refine ⟨_, below ++ merged' :: (left ++ above), rfl, ⟨?_, extended, ?_⟩, fun point =>
          values merged' point ?_⟩
        · rw [erased]
          exact congrArg snd (insert_spec extended)
        · intro other mem
          rcases mem_append.mp mem with inBelow | inRest
          · exact fewerBounded other (mem_append_left _ inBelow)
          · rcases mem_cons.mp inRest with rfl | inBack
            · exact res.fits
            · exact fewerBounded other (mem_append_right _ (mem_cons_of_mem _ inBack))
        · rw [valueAt_singleton, valueAt_singleton, res.value]
          by_cases inPiece : piece.Contains point
          · have inNew : merged'.Contains point :=
              ⟨inPiece.1, inPiece.2.trans (le_of_lt further)⟩
            rw [if_pos inNew, if_pos inPiece, value, some_or]
          · rw [if_neg inPiece, none_or]
            have outside : ¬ (piece.first ≤ point ∧ point ≤ piece.last) := inPiece
            by_cases beyond : piece.last < point ∧ point ≤ last.prevRightEnd
            · have inNew : merged'.Contains point :=
                ⟨pieceNonempty.trans (le_of_lt beyond.1), beyond.2⟩
              rw [if_pos inNew, if_pos beyond]
            · have notNew : ¬ merged'.Contains point := fun inNew => by
                have lower : piece.first ≤ point := inNew.1
                have upper : point ≤ last.prevRightEnd := inNew.2
                omega
              rw [if_neg notNew, if_neg beyond]
      · rename_i level
        refine ⟨last.tree, below ++ piece :: (left ++ above), rfl, ⟨lastTree, fewer, fewerBounded⟩,
          fun point => values piece point ?_⟩
        have none : valueAt merged point = none := by
          rw [res.value, if_neg fun inside => level (inside.1.trans_le inside.2)]
        rw [none, or_none]

/-! ### One access -/

/-- The part of the current interval after the overlapped pieces. -/
def uncovered (currInterval : ScheduledOpOneResource) (overlaid : Overlay) : List Owned :=
  if overlaid.currRemBeg ≤ overlaid.currRemEnd then
    [⟨overlaid.currRemBeg, overlaid.currRemEnd, ProdConsType.ofProducer currInterval⟩]
  else []

section Processing

variable {currInterval : ScheduledOpOneResource} {below meeting above placed : List Owned}
  {reached : Nat} {last : Overlay}

section

variable
  (overlaid : Overlaid currInterval below meeting above currInterval.addressStart
    currInterval.addressEnd placed reached last)
include overlaid

theorem uncovered_stores (ahead : ∀ piece ∈ above, currInterval.addressEnd < piece.first) :
    Stores
      (if last.currRemBeg ≤ last.currRemEnd then
        (insert last.tree last.currRemBeg last.currRemEnd (ProdConsType.ofProducer currInterval)).2
      else last.tree)
      (below ++ (placed ++ (uncovered currInterval last ++ above))) := by
  unfold uncovered
  rcases overlaid.rest with ⟨begins, ends, remains, passed⟩ | ⟨_, none⟩
  · have nonempty : last.currRemBeg ≤ last.currRemEnd := by rwa [begins, ends]
    rw [if_pos nonempty, if_pos nonempty, begins, ends]
    set piece : Owned :=
      ⟨reached, currInterval.addressEnd, ProdConsType.ofProducer currInterval⟩ with pieceEq
    have around := overlaid.ordered
    rw [← append_assoc] at around
    obtain ⟨frontOrdered, aboveOrdered, across⟩ := ordered_append.mp around
    have whole : Ordered ((below ++ placed) ++ piece :: above) := by
      refine ordered_append.mpr ⟨frontOrdered, singleton_append ▸ ordered_append.mpr
        ⟨ordered_singleton remains, aboveOrdered, fun other single later inAbove => ?_⟩,
        fun other inFront later inRest => ?_⟩
      · rw [mem_singleton.mp single]
        exact ahead later inAbove
      · rcases mem_cons.mp inRest with rfl | inAbove
        · exact passed other inFront
        · exact across other inFront later inAbove
    have inserted := congrArg snd (insert_spec whole)
    refine ⟨?_, ?_, fun other mem => ?_⟩
    · rw [overlaid.tree, ← append_assoc below, ← append_assoc below]
      exact inserted
    · rw [← append_assoc]
      exact whole
    · have bounded := overlaid.bounded other
      simp only [mem_append, mem_singleton] at mem bounded
      rcases mem with inBelow | inPlaced | rfl | inAbove
      · exact bounded (inl inBelow)
      · exact bounded (inr (inl inPlaced))
      · exact currInterval.addressEnd_lt
      · exact bounded (inr (inr inAbove))
  · rw [if_neg none.not_ge, if_neg none.not_ge, nil_append]
    exact ⟨overlaid.tree, overlaid.ordered, overlaid.bounded⟩

theorem uncovered_value (passed : ∀ piece ∈ below, piece.last < currInterval.addressStart)
    (ahead : ∀ piece ∈ above, currInterval.addressEnd < piece.first) (address : Nat) :
    valueAt (below ++ (placed ++ (uncovered currInterval last ++ above))) address =
      addressStep currInterval address (valueAt (below ++ (meeting ++ above)) address) := by
  have uncoveredAt : valueAt (uncovered currInterval last) address =
      if reached ≤ address ∧ address ≤ currInterval.addressEnd then
        some (ProdConsType.ofProducer currInterval)
      else none := by
    unfold uncovered
    rcases overlaid.rest with ⟨begins, ends, remains, _⟩ | ⟨whole, none⟩
    · rw [begins, ends, if_pos remains, valueAt_singleton]
      rfl
    · rw [if_neg none.not_ge, if_neg (by omega)]
      rfl
  have reachedEnd : reached ≤ currInterval.addressEnd + 1 := by
    rcases overlaid.rest with ⟨_, _, remains, _⟩ | ⟨whole, _⟩
    · exact Nat.le_succ_of_le remains
    · exact whole.le
  unfold addressStep
  by_cases inside : Accesses currInterval address
  · have afterBelow : ∀ piece ∈ below, piece.last < address :=
      fun piece mem => (passed piece mem).trans_le inside.1
    have beforeAbove : ∀ piece ∈ above, address < piece.first :=
      fun piece mem => inside.2.trans_lt (ahead piece mem)
    rw [if_pos inside, valueAt_after afterBelow, valueAt_after afterBelow, ← append_assoc,
      valueAt_before beforeAbove, valueAt_before beforeAbove, valueAt_append, overlaid.value,
      uncoveredAt]
    by_cases stepped : address < reached
    · rw [if_pos ⟨inside.1, stepped⟩, some_or]
    · have free : valueAt placed address = none := by
        rcases overlaid.rest with ⟨_, _, _, before⟩ | ⟨whole, _⟩
        · refine valueAt_eq_none fun piece mem contains => ?_
          have ends := before piece (mem_append_right _ mem)
          have upper := contains.2
          omega
        · have upper := inside.2
          omega
      rw [overlaid.value, if_neg fun both => stepped both.2] at free
      rw [if_neg fun both => stepped both.2, if_pos ⟨not_lt.mp stepped, inside.2⟩, free, none_or]
      rfl
  · have begins := overlaid.reached_ge
    have outside : ¬ (currInterval.addressStart ≤ address ∧ address ≤ currInterval.addressEnd) :=
      inside
    rw [if_neg inside, valueAt_append, valueAt_append placed, valueAt_append _ above,
      valueAt_append below, valueAt_append meeting, overlaid.value, uncoveredAt,
      if_neg (by omega), if_neg (by omega), none_or]

end

end Processing

/-- What one access does: each of its addresses makes a step, and an address that has owners
gets the edges they call for. -/
structure Processed (currInterval : ScheduledOpOneResource) (pieces pieces' : List Owned)
    (state next : Generated) : Prop where
  stores : Stores next.tree pieces'
  value : ∀ address,
    valueAt pieces' address = addressStep currInterval address (valueAt pieces address)
  prefix_edges : state.edges <+: next.edges
  emitted : ∀ address prodCons, Accesses currInterval address →
    valueAt pieces address = some prodCons →
    ∃ before, state.edges <+: before ∧
      before ++ (updateOwners currInterval prodCons before).2 <+: next.edges

theorem length_ends (pieces : List Owned) : (ends pieces).length = 2 * pieces.length := by
  induction pieces with
  | nil => rfl
  | cons piece rest ih =>
    rw [ends_cons, length_cons, length_cons, ih, length_cons]
    omega

variable {state : Generated}

theorem processNextInterval_spec (currInterval : ScheduledOpOneResource)
    (stores : Stores state.tree pieces)
    (nonempty : currInterval.addressStart ≤ currInterval.addressEnd) :
    ∃ next pieces', processNextInterval currInterval state = .ok next ∧
      Processed currInterval pieces pieces' state next := by
  obtain ⟨below, meeting, above, rfl, passed, meets, ahead⟩ :=
    stores.ordered.split currInterval.addressStart currInterval.addressEnd
  have queried : query state.tree currInterval.addressStart currInterval.addressEnd =
      ⟨start (meeting ++ above), start above⟩ := by
    rw [stores.tree]
    exact query_spec stores.ordered passed meets ahead nonempty
  have enough : meeting.length ≤ state.tree.length := by
    rw [stores.tree, length_ends, length_append, length_append]
    omega
  obtain ⟨placed, reached, overlaid, emitted⟩ := @overlayLoop_spec currInterval _
    meeting below state.tree.length
    ⟨state.tree, state.edges, currInterval.addressStart, currInterval.addressEnd,
      ⟨start (meeting ++ above), start above⟩⟩
    ⟨stores.tree, rfl, stores.ordered, stores.bounded⟩
    ⟨nonempty, passed, meets, currInterval.addressEnd_lt⟩ enough
  have edgesOf : ∀ address prodCons, Accesses currInterval address →
      valueAt (below ++ (meeting ++ above)) address = some prodCons →
      ∃ piece ∈ meeting, piece.value = prodCons := by
    intro address prodCons inside found
    rw [valueAt_after fun piece mem => (passed piece mem).trans_le inside.1,
      valueAt_before fun piece mem => inside.2.trans_lt (ahead piece mem)] at found
    obtain ⟨piece, mem, _, owned⟩ := valueAt_eq_some found
    exact ⟨piece, mem, owned⟩
  have owners := uncovered_stores overlaid ahead
  have values := uncovered_value overlaid passed ahead
  unfold processNextInterval
  dsimp only
  rw [queried]
  split
  · rename_i producer
    obtain ⟨tree, pieces', merged, stores', same⟩ :=
      mergeAbuttingIntervals_spec producer nonempty owners
    rw [merged]
    refine ⟨_, pieces', rfl, stores', fun address => (same address).trans (values address),
      emitted.prefix_edges, fun address prodCons inside found => ?_⟩
    obtain ⟨piece, mem, rfl⟩ := edgesOf address prodCons inside found
    exact emitted.each piece mem
  · refine ⟨_, _, rfl, owners, values, emitted.prefix_edges,
      fun address prodCons inside found => ?_⟩
    obtain ⟨piece, mem, rfl⟩ := edgesOf address prodCons inside found
    exact emitted.each piece mem

/-! ### Sequences of accesses -/

/-- The pieces a tree stores. -/
def stored : EndPointTree → List Owned
  | (left, prodCons) :: (right, _) :: rest => ⟨left.x, right.x, prodCons⟩ :: stored rest
  | _ => []

theorem stored_ends (pieces : List Owned) : stored (ends pieces) = pieces := by
  induction pieces with
  | nil => rfl
  | cons piece rest ih => rw [ends_cons, stored, ih]

theorem Stores.stored_eq (stores : Stores tree pieces) : stored tree = pieces := by
  rw [stores.tree, stored_ends]

variable (earlier intervals : List ScheduledOpOneResource) (currInterval : ScheduledOpOneResource)
  (address : Nat)

theorem addressOwners_snoc :
    addressOwners (earlier ++ [currInterval]) address =
      addressStep currInterval address (addressOwners earlier address) :=
  foldl_append

theorem addressOwners_isSome_iff :
    (addressOwners intervals address).isSome ↔
      ∃ interval ∈ intervals, Accesses interval address := by
  induction intervals using reverseRecOn with
  | nil => exact iff_of_false Bool.false_ne_true fun ⟨_, no, _⟩ => not_mem_nil no
  | append_singleton earlier currInterval ih =>
    rw [addressOwners_snoc]
    unfold addressStep
    by_cases inside : Accesses currInterval address
    · rw [if_pos inside]
      exact iff_of_true rfl
        ⟨currInterval, mem_append_right _ (mem_singleton_self _), inside⟩
    · rw [if_neg inside, ih]
      constructor
      · rintro ⟨interval, mem, accessed⟩
        exact ⟨interval, mem_append_left _ mem, accessed⟩
      · rintro ⟨interval, mem, accessed⟩
        rcases mem_append.mp mem with before | last
        · exact ⟨interval, before, accessed⟩
        · exact absurd (mem_singleton.mp last ▸ accessed) inside

theorem generateControlEdges_snoc :
    generateControlEdges (earlier ++ [currInterval]) =
      (generateControlEdges earlier).bind fun state =>
        if currInterval.addressStart > currInterval.addressEnd then .ok state
        else processNextInterval currInterval state := by
  unfold generateControlEdges
  rw [foldlM_append]
  refine congrArg _ (funext fun state => ?_)
  exact bind_pure _

structure Refines (intervals : List ScheduledOpOneResource) (state : Generated) : Prop where
  stores : Stores state.tree (stored state.tree)
  value : ∀ address, valueAt (stored state.tree) address = addressOwners intervals address

/-- One access keeps the refinement; every address it reaches gets the edges its owners call
for. -/
theorem Refines.step {earlier : List ScheduledOpOneResource} (refines : Refines earlier state)
    (generated : generateControlEdges earlier = .ok state) (currInterval : ScheduledOpOneResource) :
    ∃ next, generateControlEdges (earlier ++ [currInterval]) = .ok next ∧
      Refines (earlier ++ [currInterval]) next ∧ state.edges <+: next.edges ∧
      ∀ address prodCons, Accesses currInterval address →
        addressOwners earlier address = some prodCons →
        ∃ before, state.edges <+: before ∧
          before ++ (updateOwners currInterval prodCons before).2 <+: next.edges := by
  rw [generateControlEdges_snoc, generated]
  by_cases empty : currInterval.addressStart > currInterval.addressEnd
  · have outside : ∀ address, ¬ Accesses currInterval address := fun address inside =>
      absurd (inside.1.trans inside.2) empty.not_ge
    refine ⟨state, if_pos empty, ⟨refines.stores, fun address => ?_⟩, prefix_rfl,
      fun address _ inside => absurd inside (outside address)⟩
    rw [addressOwners_snoc, addressStep, if_neg (outside address)]
    exact refines.value address
  · obtain ⟨next, pieces, processed, res⟩ :=
      processNextInterval_spec currInterval refines.stores (not_lt.mp empty)
    refine ⟨next, (if_neg empty).trans processed, ⟨?_, fun address => ?_⟩, res.prefix_edges,
      fun address prodCons inside owned => ?_⟩
    · rw [res.stores.stored_eq]
      exact res.stores
    · rw [res.stores.stored_eq, res.value, addressOwners_snoc, refines.value]
    · exact res.emitted address prodCons inside ((refines.value address).trans owned)

theorem generateControlEdges_spec :
    ∃ state, generateControlEdges intervals = .ok state ∧ Refines intervals state := by
  induction intervals using reverseRecOn with
  | nil => exact ⟨⟨[], []⟩, rfl, ⟨rfl, ordered_nil, forall_mem_nil _⟩,
      fun _ => rfl⟩
  | append_singleton earlier currInterval ih =>
    obtain ⟨state, generated, refines⟩ := ih
    obtain ⟨next, generated', refines', _⟩ := refines.step generated currInterval
    exact ⟨next, generated', refines'⟩

/-- The generator refines the model with one entry for each address. -/
theorem generateControlEdges_refines (intervals : List ScheduledOpOneResource) :
    ∃ state, generateControlEdges intervals = .ok state ∧
      state.tree = ends (stored state.tree) ∧ Ordered (stored state.tree) ∧
      (∀ address, (∃ piece ∈ stored state.tree, piece.Contains address) ↔
        ∃ interval ∈ intervals, Accesses interval address) ∧
      ∀ address, valueAt (stored state.tree) address = addressOwners intervals address := by
  obtain ⟨state, generated, refines⟩ := generateControlEdges_spec intervals
  refine ⟨state, generated, refines.stores.tree, refines.stores.ordered, fun address => ?_,
    refines.value⟩
  rw [← valueAt_isSome_iff, refines.value, addressOwners_isSome_iff]

end NpuPlugin.ControlEdgeGenerator
