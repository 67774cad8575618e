/-
This file proves that the tree of end points stores a list of ordered pieces. Queries return the
iterators around the pieces that meet an interval; erasures and insertions remove and add one
piece.
-/

import NpuPlugin.ControlEdges.Model

namespace NpuPlugin.DisjointIntervalSet

open OrderedMap Pieces List Option

abbrev Owned := Piece ProdConsType

/-- The end points of the pieces. -/
def ends (pieces : List Owned) : EndPointTree :=
  pieces.flatMap fun piece =>
    [(⟨piece.first, .leftEnd⟩, piece.value), (⟨piece.last, .rightEnd⟩, piece.value)]

/-- The left end of the first piece. -/
def start (pieces : List Owned) : Option EndPointType :=
  pieces.head?.map fun piece => ⟨piece.first, .leftEnd⟩

theorem ends_append (front back : List Owned) : ends (front ++ back) = ends front ++ ends back :=
  flatMap_append

theorem ends_cons (piece : Owned) (rest : List Owned) :
    ends (piece :: rest) =
      (⟨piece.first, .leftEnd⟩, piece.value) :: (⟨piece.last, .rightEnd⟩, piece.value) ::
        ends rest :=
  flatMap_cons

theorem start_eq_head (pieces : List Owned) : (ends pieces).head?.map Prod.fst = start pieces := by
  cases pieces with
  | nil => rfl
  | cons piece rest => rfl

variable {pieces : List Owned} {point : EndPointType}

theorem mem_ends {entry : EndPointType × ProdConsType} (mem : entry ∈ ends pieces) :
    ∃ piece ∈ pieces, entry.1.x = piece.first ∨ entry.1.x = piece.last := by
  obtain ⟨piece, inPieces, here⟩ := mem_flatMap.mp mem
  rcases mem_cons.mp here with rfl | there
  · exact ⟨piece, inPieces, Or.inl rfl⟩
  · exact ⟨piece, inPieces, Or.inr (mem_singleton.mp there ▸ rfl)⟩

theorem rank_bounds (point : EndPointType) :
    2 * point.x ≤ point.rank ∧ point.rank ≤ 2 * point.x + 1 := by
  obtain ⟨x, orient⟩ := point
  cases orient <;> simp [EndPointType.rank, OrientType.rank]

theorem lt_of_x_lt {first second : EndPointType} (below : first.x < second.x) : first < second := by
  have left := rank_bounds first
  have right := rank_bounds second
  rw [EndPointType.lt_iff_rank]
  omega

theorem left_lt_right {first last : Nat} (nonempty : first ≤ last) :
    (⟨first, .leftEnd⟩ : EndPointType) < ⟨last, .rightEnd⟩ := by
  rw [EndPointType.lt_iff_rank]
  simp only [EndPointType.rank, OrientType.rank]
  omega

theorem ends_below (ordered : Ordered pieces) (passed : ∀ piece ∈ pieces, piece.last < point.x) :
    ∀ entry ∈ ends pieces, entry.1 < point := by
  intro entry mem
  obtain ⟨piece, inPieces, atEnd⟩ := mem_ends mem
  have nonempty := ordered.nonempty piece inPieces
  have below := passed piece inPieces
  exact lt_of_x_lt (by omega)

theorem ends_above (ordered : Ordered pieces) (ahead : ∀ piece ∈ pieces, point.x < piece.first) :
    ∀ entry ∈ ends pieces, point < entry.1 := by
  intro entry mem
  obtain ⟨piece, inPieces, atEnd⟩ := mem_ends mem
  have nonempty := ordered.nonempty piece inPieces
  have above := ahead piece inPieces
  exact lt_of_x_lt (by omega)

/-- What surrounds one piece of an ordered list. -/
theorem ordered_middle {front back : List Owned} {piece : Owned}
    (ordered : Ordered (front ++ piece :: back)) :
    Ordered front ∧ Ordered back ∧ piece.first ≤ piece.last ∧
      (∀ other ∈ front, other.last < piece.first) ∧ ∀ other ∈ back, piece.last < other.first := by
  obtain ⟨frontOrdered, restOrdered, across⟩ := ordered_append.mp ordered
  obtain ⟨_, backOrdered, after⟩ := ordered_append.mp (singleton_append ▸ restOrdered)
  exact ⟨frontOrdered, backOrdered, restOrdered.nonempty piece mem_cons_self,
    fun other mem => across other mem piece mem_cons_self,
    after piece (mem_singleton_self piece)⟩

/-! ### Iterators -/

variable {front back : List Owned} {piece : Owned}

section

variable (ordered : Ordered (front ++ piece :: back))
include ordered

theorem around_left :
    ends (front ++ piece :: back) = ends front ++ (⟨piece.first, .leftEnd⟩, piece.value) ::
        ((⟨piece.last, .rightEnd⟩, piece.value) :: ends back) ∧
      (∀ entry ∈ ends front, entry.1 < ⟨piece.first, .leftEnd⟩) ∧
      ∀ entry ∈ (⟨piece.last, .rightEnd⟩, piece.value) :: ends back,
        (⟨piece.first, .leftEnd⟩ : EndPointType) < entry.1 := by
  obtain ⟨frontOrdered, backOrdered, nonempty, passed, ahead⟩ := ordered_middle ordered
  refine ⟨by rw [ends_append, ends_cons], ends_below frontOrdered passed,
    forall_mem_cons.mpr ⟨left_lt_right nonempty, ends_above backOrdered fun other mem => ?_⟩⟩
  exact nonempty.trans_lt (ahead other mem)

theorem around_right :
    ends (front ++ piece :: back) = (ends front ++ [(⟨piece.first, .leftEnd⟩, piece.value)]) ++
        (⟨piece.last, .rightEnd⟩, piece.value) :: ends back ∧
      (∀ entry ∈ ends front ++ [(⟨piece.first, .leftEnd⟩, piece.value)],
        entry.1 < ⟨piece.last, .rightEnd⟩) ∧
      ∀ entry ∈ ends back, (⟨piece.last, .rightEnd⟩ : EndPointType) < entry.1 := by
  obtain ⟨frontOrdered, backOrdered, nonempty, passed, ahead⟩ := ordered_middle ordered
  refine ⟨by rw [ends_append, ends_cons, append_assoc]; rfl, fun entry mem => ?_,
    ends_above backOrdered ahead⟩
  rcases mem_append.mp mem with inFront | atLeft
  · refine ends_below frontOrdered (fun other inside => ?_) entry inFront
    exact (passed other inside).trans_le nonempty
  · rw [mem_singleton.mp atLeft]
    exact left_lt_right nonempty

theorem next_left :
    next (ends (front ++ piece :: back)) ⟨piece.first, .leftEnd⟩ =
      some ⟨piece.last, .rightEnd⟩ := by
  obtain ⟨split, below, above⟩ := around_left ordered
  rw [split, append_cons]
  refine next_split (fun entry mem => ?_) above
  rcases mem_append.mp mem with inFront | atLeft
  · exact (below entry inFront).le
  · exact (congrArg Prod.fst (mem_singleton.mp atLeft)).le

theorem next_right : next (ends (front ++ piece :: back)) ⟨piece.last, .rightEnd⟩ = start back := by
  obtain ⟨split, below, above⟩ := around_right ordered
  rw [split, append_cons, ← start_eq_head]
  refine next_split (fun entry mem => ?_) above
  rcases mem_append.mp mem with inFront | atRight
  · exact (below entry inFront).le
  · exact (congrArg Prod.fst (mem_singleton.mp atRight)).le

variable (fin : Option EndPointType)

theorem deref_start :
    (IntervalIterator.mk (start (piece :: back)) fin).deref (ends (front ++ piece :: back)) =
      some (piece.first, piece.last, piece.value) := by
  obtain ⟨split, below, _⟩ := around_left ordered
  have found : find (ends (front ++ piece :: back)) ⟨piece.first, .leftEnd⟩ = some piece.value := by
    rw [split]
    exact find_split below
  unfold IntervalIterator.deref
  dsimp only [start, head?_cons, map_some, bind_eq_bind, bind_some]
  rw [next_left ordered, found]
  rfl

theorem advance_start :
    (IntervalIterator.mk (start (piece :: back)) fin).advance (ends (front ++ piece :: back)) =
      ⟨start back, fin⟩ := by
  unfold IntervalIterator.advance
  dsimp only [start, head?_cons, map_some, bind_some]
  rw [next_left ordered, bind_some, next_right ordered]
  rfl

end

/-- The iterator has reached the end of a query when no piece is left. -/
theorem atEnd_iff {meeting above : List Owned} (ordered : Ordered (meeting ++ above)) :
    (IntervalIterator.mk (start (meeting ++ above)) (start above)).atEnd = true ↔ meeting = [] := by
  unfold IntervalIterator.atEnd
  rw [decide_eq_true_eq]
  cases meeting with
  | nil => exact iff_of_true rfl rfl
  | cons piece rest =>
    refine iff_of_false (fun same => ?_) (cons_ne_nil _ _)
    cases above with
    | nil => exact absurd same (some_ne_none _)
    | cons other later =>
      have across := (ordered_append.mp ordered).2.2 piece mem_cons_self other
        mem_cons_self
      have nonempty := ordered.nonempty piece (mem_append_left _ mem_cons_self)
      have points : piece.first = other.first := congrArg EndPointType.x (some_inj.mp same)
      omega

/-! ### Queries -/

theorem query_begin {below rest : List Owned} (ordered : Ordered (below ++ rest)) (first : Nat)
    (passed : ∀ piece ∈ below, piece.last < first) (meets : ∀ piece ∈ rest, first ≤ piece.last) :
    queryBegin (ends (below ++ rest)) first = start rest := by
  unfold queryBegin
  obtain ⟨belowOrdered, _, _⟩ := ordered_append.mp ordered
  have belowFirst : ∀ entry ∈ ends below, entry.1 < ⟨first, .leftEnd⟩ :=
    ends_below belowOrdered passed
  cases rest with
  | nil =>
    have found : lowerBound (ends (below ++ [])) ⟨first, .leftEnd⟩ = none := by
      rw [ends_append]
      exact lowerBound_split belowFirst fun _ no => absurd no not_mem_nil
    rw [found]
    rfl
  | cons piece later =>
    obtain ⟨split, -, aboveLeft⟩ := around_left ordered
    obtain ⟨split', belowRight, aboveRight⟩ := around_right ordered
    by_cases begins : first ≤ piece.first
    · have found : lowerBound (ends (below ++ piece :: later)) ⟨first, .leftEnd⟩ =
          some ⟨piece.first, .leftEnd⟩ := by
        have atLeft : (⟨first, .leftEnd⟩ : EndPointType) ≤ ⟨piece.first, .leftEnd⟩ := by
          rw [EndPointType.le_iff_rank]
          simp only [EndPointType.rank]
          omega
        rw [split]
        exact lowerBound_split belowFirst (forall_mem_cons.mpr ⟨atLeft,
          fun entry mem => atLeft.trans (le_of_lt (aboveLeft entry mem))⟩)
      rw [found]
      rfl
    · have meetsHead := meets piece mem_cons_self
      have found : lowerBound (ends (below ++ piece :: later)) ⟨first, .leftEnd⟩ =
          some ⟨piece.last, .rightEnd⟩ := by
        have atRight : (⟨first, .leftEnd⟩ : EndPointType) ≤ ⟨piece.last, .rightEnd⟩ :=
          (left_lt_right meetsHead).le
        rw [split']
        refine lowerBound_split (fun entry mem => ?_) (forall_mem_cons.mpr ⟨atRight,
          fun entry mem => atRight.trans (le_of_lt (aboveRight entry mem))⟩)
        rcases mem_append.mp mem with inBelow | atLeft
        · exact belowFirst entry inBelow
        · rw [mem_singleton.mp atLeft]
          exact lt_of_x_lt (not_le.mp begins)
      have back : prev (ends (below ++ piece :: later)) ⟨piece.last, .rightEnd⟩ =
          some ⟨piece.first, .leftEnd⟩ := by
        rw [split', prev_split belowRight (forall_mem_cons.mpr ⟨le_rfl,
          fun entry mem => (aboveRight entry mem).le⟩), getLast?_concat]
        rfl
      rw [found]
      dsimp only
      rw [if_pos rfl, back]
      rfl

theorem query_end {above : List Owned} (ordered : Ordered (front ++ above)) (last : Nat)
    (begun : ∀ piece ∈ front, piece.first ≤ last) (ahead : ∀ piece ∈ above, last < piece.first) :
    queryEnd (ends (front ++ above)) last = start above := by
  unfold queryEnd
  obtain ⟨frontOrdered, aboveOrdered, across⟩ := ordered_append.mp ordered
  have aboveLast : ∀ entry ∈ ends above, (⟨last, .rightEnd⟩ : EndPointType) < entry.1 :=
    ends_above aboveOrdered ahead
  have toAbove : (∀ piece ∈ front, piece.last < last) →
      lowerBound (ends (front ++ above)) ⟨last, .rightEnd⟩ = start above := by
    intro passed
    rw [ends_append, ← start_eq_head]
    exact lowerBound_split (ends_below frontOrdered passed) fun entry mem =>
      (aboveLast entry mem).le
  rcases eq_nil_or_concat front with rfl | ⟨earlier, piece, whole⟩
  · rw [toAbove fun _ no => absurd no not_mem_nil]
    cases above with
    | nil => rfl
    | cons piece rest => rfl
  rw [concat_eq_append] at whole
  subst whole
  rw [append_assoc, singleton_append] at ordered toAbove ⊢
  obtain ⟨earlierOrdered, _, nonempty, passed, _⟩ := ordered_middle ordered
  by_cases short : piece.last < last
  · rw [toAbove fun other mem => ?_]
    · cases above with
      | nil => rfl
      | cons piece rest => rfl
    · rcases mem_append.mp mem with inEarlier | atEnd
      · exact (passed other inEarlier).trans_le (le_trans nonempty (le_of_lt short))
      · exact mem_singleton.mp atEnd ▸ short
  · obtain ⟨split, -, after⟩ := around_right ordered
    have beginsHere := begun piece (mem_append_right _ (mem_singleton_self piece))
    have atRight : (⟨last, .rightEnd⟩ : EndPointType) ≤ ⟨piece.last, .rightEnd⟩ := by
      rw [EndPointType.le_iff_rank]
      simp only [EndPointType.rank]
      omega
    have found : lowerBound (ends (earlier ++ piece :: above)) ⟨last, .rightEnd⟩ =
        some ⟨piece.last, .rightEnd⟩ := by
      rw [split]
      refine lowerBound_split (fun entry mem => ?_) (forall_mem_cons.mpr ⟨atRight,
        fun entry mem => atRight.trans (le_of_lt (after entry mem))⟩)
      rcases mem_append.mp mem with inEarlier | atLeft
      · exact ends_below earlierOrdered (fun other inside =>
          (passed other inside).trans_le beginsHere) entry inEarlier
      · rw [mem_singleton.mp atLeft]
        exact left_lt_right beginsHere
    rw [found]
    dsimp only
    rw [if_pos rfl, next_right ordered]

theorem query_spec {below meeting above : List Owned} {first last : Nat}
    (ordered : Ordered (below ++ (meeting ++ above))) (passed : ∀ piece ∈ below, piece.last < first)
    (meets : ∀ piece ∈ meeting, first ≤ piece.last ∧ piece.first ≤ last)
    (ahead : ∀ piece ∈ above, last < piece.first) (nonempty : first ≤ last) :
    query (ends (below ++ (meeting ++ above))) first last =
      ⟨start (meeting ++ above), start above⟩ := by
  have reach : ∀ piece ∈ meeting ++ above, first ≤ piece.last := by
    intro piece mem
    rcases mem_append.mp mem with inMeeting | inAbove
    · exact (meets piece inMeeting).1
    · have begins := ahead piece inAbove
      have whole := ordered.nonempty piece (mem_append_right _ mem)
      omega
  have begun : ∀ piece ∈ below ++ meeting, piece.first ≤ last := by
    intro piece mem
    rcases mem_append.mp mem with inBelow | inMeeting
    · have ends := passed piece inBelow
      have whole := ordered.nonempty piece (mem_append_left _ inBelow)
      omega
    · exact (meets piece inMeeting).2
  have front := query_begin ordered first passed reach
  rw [← append_assoc] at ordered front ⊢
  have back := query_end ordered last begun ahead
  unfold query
  rw [front, back]

/-! ### Erasing and inserting one piece -/

theorem erase_spec (ordered : Ordered (front ++ piece :: back)) :
    erase (ends (front ++ piece :: back)) piece.first piece.last =
      (true, ends (front ++ back)) := by
  obtain ⟨split, below, above⟩ := around_left ordered
  obtain ⟨split', belowRight, aboveRight⟩ := around_right ordered
  have foundLeft : find (ends (front ++ piece :: back)) ⟨piece.first, .leftEnd⟩ =
      some piece.value := by
    rw [split]
    exact find_split below
  have foundRight : find (ends (front ++ piece :: back)) ⟨piece.last, .rightEnd⟩ =
      some piece.value := by
    rw [split']
    exact find_split belowRight
  have present : ¬ ((some piece.value).isNone = true ∨ (some piece.value).isNone = true) :=
    not_or.mpr ⟨Bool.false_ne_true, Bool.false_ne_true⟩
  unfold erase
  dsimp only
  rw [foundLeft, foundRight, if_neg present, split, erase_split below above,
    erase_split (forall_mem_append.mp belowRight).1 aboveRight,
    ends_append]

theorem insert_spec (ordered : Ordered (front ++ piece :: back)) :
    insert (ends (front ++ back)) piece.first piece.last piece.value =
      (true, ends (front ++ piece :: back)) := by
  obtain ⟨-, backOrdered, nonempty, -, ahead⟩ := ordered_middle ordered
  obtain ⟨split, below, above⟩ := around_left ordered
  obtain ⟨split', belowRight, aboveRight⟩ := around_right ordered
  have aboveLeft : ∀ entry ∈ ends back, (⟨piece.first, .leftEnd⟩ : EndPointType) < entry.1 :=
    (forall_mem_cons.mp above).2
  have found : lowerBound (ends (front ++ back)) ⟨piece.first, .leftEnd⟩ = start back := by
    rw [ends_append, ← start_eq_head]
    exact lowerBound_split below fun entry mem => (aboveLeft entry mem).le
  have disjoint : isIntervalDisjoint ⟨piece.first, .leftEnd⟩ ⟨piece.last, .rightEnd⟩
      (start back) = true := by
    cases back with
    | nil => rfl
    | cons other later =>
      have beyond := ahead other mem_cons_self
      exact decide_eq_true ⟨rfl, nonempty.trans_lt beyond, beyond⟩
  unfold insert
  dsimp only
  rw [found, disjoint, if_pos rfl, ends_append, insert_split below aboveLeft, append_cons,
    insert_split belowRight aboveRight, split']

end NpuPlugin.DisjointIntervalSet
