/-
This file develops maps from the natural numbers that are constant on pieces, where a piece is a
closed interval with a value, and ordered maps with stable iterators, as a balanced search tree
offers them: an iterator is the key it points to, or nothing at the end, and insertions and
erasures elsewhere do not move it.
-/

import Mathlib.Data.List.Basic
import Mathlib.Data.List.TakeWhile
import Mathlib.Order.Lattice

namespace NpuPlugin.Pieces

open List Option

/-- The points from `first` to `last`, both included, with one value. -/
structure Piece (Value : Type) where
  first : Nat
  last : Nat
  value : Value
deriving DecidableEq, Repr

variable {Value : Type}

def Piece.Contains (piece : Piece Value) (point : Nat) : Prop :=
  piece.first ≤ point ∧ point ≤ piece.last

instance (piece : Piece Value) (point : Nat) : Decidable (piece.Contains point) :=
  inferInstanceAs (Decidable (_ ∧ _))

/-- No piece is empty, and every piece ends before the next one begins. -/
structure Ordered (pieces : List (Piece Value)) : Prop where
  nonempty : ∀ piece ∈ pieces, piece.first ≤ piece.last
  separate : pieces.Pairwise fun piece later => piece.last < later.first

/-- The value of the piece that contains the point. -/
def valueAt (pieces : List (Piece Value)) (point : Nat) : Option Value :=
  (pieces.find? fun piece => decide (piece.Contains point)).map Piece.value

theorem ordered_append {front back : List (Piece Value)} :
    Ordered (front ++ back) ↔ Ordered front ∧ Ordered back ∧
      ∀ piece ∈ front, ∀ later ∈ back, piece.last < later.first := by
  constructor
  · rintro ⟨nonempty, separate⟩
    obtain ⟨frontSeparate, backSeparate, across⟩ := pairwise_append.mp separate
    exact ⟨⟨(forall_mem_append.mp nonempty).1, frontSeparate⟩,
      ⟨(forall_mem_append.mp nonempty).2, backSeparate⟩, across⟩
  · rintro ⟨left, right, across⟩
    exact ⟨fun piece mem => (mem_append.mp mem).elim (left.nonempty piece)
      (right.nonempty piece), pairwise_append.mpr ⟨left.separate, right.separate, across⟩⟩

theorem ordered_singleton {piece : Piece Value} (nonempty : piece.first ≤ piece.last) :
    Ordered [piece] :=
  ⟨fun _ mem => mem_singleton.mp mem ▸ nonempty, pairwise_singleton _ _⟩

theorem ordered_nil : Ordered ([] : List (Piece Value)) := ⟨forall_mem_nil _, List.Pairwise.nil⟩

theorem Ordered.sublist {pieces fewer : List (Piece Value)} (ordered : Ordered pieces)
    (sublist : fewer.Sublist pieces) : Ordered fewer :=
  ⟨fun piece mem => ordered.nonempty piece (sublist.subset mem), ordered.separate.sublist sublist⟩

/-! ### The value at a point -/

@[simp] theorem valueAt_nil (point : Nat) : valueAt ([] : List (Piece Value)) point = none := rfl

theorem valueAt_append (front back : List (Piece Value)) (point : Nat) :
    valueAt (front ++ back) point = (valueAt front point).or (valueAt back point) := by
  unfold valueAt
  rw [find?_append, map_or]

variable {point : Nat} {pieces front back : List (Piece Value)} (piece : Piece Value)

theorem valueAt_singleton (point : Nat) :
    valueAt [piece] point = if piece.Contains point then some piece.value else none := by
  unfold valueAt
  rw [find?_cons]
  by_cases inside : piece.Contains point
  · rw [decide_eq_true inside, if_pos inside]
    rfl
  · rw [decide_eq_false inside, if_neg inside]
    rfl

theorem valueAt_cons (rest : List (Piece Value)) (point : Nat) :
    valueAt (piece :: rest) point =
      if piece.Contains point then some piece.value else valueAt rest point := by
  rw [← singleton_append, valueAt_append, valueAt_singleton]
  split
  · exact some_or
  · exact none_or

theorem valueAt_eq_none (outside : ∀ piece ∈ pieces, ¬ piece.Contains point) :
    valueAt pieces point = none := by
  unfold valueAt
  rw [map_eq_none_iff, find?_eq_none]
  intro piece mem
  rw [decide_eq_true_eq]
  exact outside piece mem

theorem valueAt_eq_some {value : Value} (found : valueAt pieces point = some value) :
    ∃ piece ∈ pieces, piece.Contains point ∧ piece.value = value := by
  obtain ⟨piece, chosen, same⟩ := map_eq_some_iff.mp found
  have inside := find?_some chosen
  exact ⟨piece, mem_of_find?_eq_some chosen, of_decide_eq_true inside, same⟩

theorem valueAt_isSome_iff :
    (valueAt pieces point).isSome ↔ ∃ piece ∈ pieces, piece.Contains point := by
  constructor
  · intro some
    obtain ⟨value, found⟩ := isSome_iff_exists.mp some
    obtain ⟨piece, mem, inside, _⟩ := valueAt_eq_some found
    exact ⟨piece, mem, inside⟩
  · rintro ⟨piece, mem, inside⟩
    by_contra none
    rw [not_isSome_iff_eq_none] at none
    unfold valueAt at none
    rw [map_eq_none_iff, find?_eq_none] at none
    exact none piece mem (decide_eq_true inside)

theorem valueAt_after (passed : ∀ piece ∈ front, piece.last < point) :
    valueAt (front ++ back) point = valueAt back point := by
  rw [valueAt_append, valueAt_eq_none fun piece mem inside =>
    absurd inside.2 (passed piece mem).not_ge, none_or]

theorem valueAt_before (ahead : ∀ piece ∈ back, point < piece.first) :
    valueAt (front ++ back) point = valueAt front point := by
  rw [valueAt_append, valueAt_eq_none fun piece mem inside =>
    absurd inside.1 (ahead piece mem).not_ge, or_none]

/-! ### Splitting the pieces -/

theorem Ordered.split_below (ordered : Ordered pieces) (point : Nat) :
    ∃ below rest, pieces = below ++ rest ∧ (∀ piece ∈ below, piece.last < point) ∧
      ∀ piece ∈ rest, point ≤ piece.last := by
  induction pieces with
  | nil => exact ⟨[], [], rfl, forall_mem_nil _,
      forall_mem_nil _⟩
  | cons head tail ih =>
    obtain ⟨_, tailOrdered, across⟩ := ordered_append.mp (singleton_append ▸ ordered)
    by_cases passed : head.last < point
    · obtain ⟨below, rest, rfl, belowPassed, restMeets⟩ := ih tailOrdered
      exact ⟨head :: below, rest, rfl, forall_mem_cons.mpr ⟨passed, belowPassed⟩, restMeets⟩
    · refine ⟨[], head :: tail, rfl, forall_mem_nil _,
        forall_mem_cons.mpr ⟨not_lt.mp passed, fun piece mem => ?_⟩⟩
      have later := across head (mem_singleton_self head) piece mem
      have nonempty := tailOrdered.nonempty piece mem
      omega

theorem Ordered.split_above (ordered : Ordered pieces) (point : Nat) :
    ∃ front above, pieces = front ++ above ∧ (∀ piece ∈ front, piece.first ≤ point) ∧
      ∀ piece ∈ above, point < piece.first := by
  induction pieces with
  | nil => exact ⟨[], [], rfl, forall_mem_nil _,
      forall_mem_nil _⟩
  | cons head tail ih =>
    obtain ⟨headOrdered, tailOrdered, across⟩ := ordered_append.mp (singleton_append ▸ ordered)
    by_cases begun : head.first ≤ point
    · obtain ⟨front, above, rfl, frontBegun, aboveAhead⟩ := ih tailOrdered
      exact ⟨head :: front, above, rfl, forall_mem_cons.mpr ⟨begun, frontBegun⟩, aboveAhead⟩
    · refine ⟨[], head :: tail, rfl, forall_mem_nil _,
        forall_mem_cons.mpr ⟨not_le.mp begun, fun piece mem => ?_⟩⟩
      have later := across head (mem_singleton_self head) piece mem
      have nonempty := headOrdered.nonempty head (mem_singleton_self head)
      omega

/-- The pieces split into those that end before an interval, those that meet it and those that
begin after it. -/
theorem Ordered.split (ordered : Ordered pieces) (first last : Nat) :
    ∃ below meeting above, pieces = below ++ (meeting ++ above) ∧
      (∀ piece ∈ below, piece.last < first) ∧
      (∀ piece ∈ meeting, first ≤ piece.last ∧ piece.first ≤ last) ∧
      ∀ piece ∈ above, last < piece.first := by
  obtain ⟨below, rest, rfl, passed, meets⟩ := ordered.split_below first
  obtain ⟨meeting, above, rfl, begun, ahead⟩ := (ordered_append.mp ordered).2.1.split_above last
  exact ⟨below, meeting, above, rfl, passed, fun piece mem =>
    ⟨meets piece (mem_append_left _ mem), begun piece mem⟩, ahead⟩

end NpuPlugin.Pieces

namespace NpuPlugin.OrderedMap

open List Option

variable {Key Value : Type} [LinearOrder Key] (entries : List (Key × Value)) (key : Key)

/-- The first key that is not below the given one. -/
def lowerBound : Option Key := (entries.find? fun entry => decide (key ≤ entry.1)).map Prod.fst

/-- The key after the given one. -/
def next : Option Key := (entries.find? fun entry => decide (key < entry.1)).map Prod.fst

/-- The key before the given one. -/
def prev : Option Key :=
  (entries.takeWhile fun entry => decide (entry.1 < key)).getLast?.map Prod.fst

def find (entries : List (Key × Value)) (key : Key) : Option Value :=
  (entries.find? fun entry => decide (entry.1 = key)).map Prod.snd

/-- A new entry; an entry that is there already is kept. -/
def insert (value : Value) : List (Key × Value) :=
  match find entries key with
  | some _ => entries
  | none => (entries.takeWhile fun entry => decide (entry.1 < key)) ++
      (key, value) :: entries.dropWhile fun entry => decide (entry.1 < key)

def erase : List (Key × Value) := entries.filter fun entry => decide (entry.1 ≠ key)

/-! ### Entries split at a key -/

variable {before after : List (Key × Value)} {key : Key} {value : Value}

theorem lowerBound_split (below : ∀ entry ∈ before, entry.1 < key)
    (above : ∀ entry ∈ after, key ≤ entry.1) :
    lowerBound (before ++ after) key = after.head?.map Prod.fst := by
  have skipped : before.find? (fun entry => decide (key ≤ entry.1)) = none :=
    find?_eq_none.mpr fun entry mem => by
      rw [decide_eq_true_eq]
      exact (below entry mem).not_ge
  unfold lowerBound
  rw [find?_append, skipped, none_or]
  cases after with
  | nil => rfl
  | cons entry rest =>
    rw [find?_cons, decide_eq_true (above entry mem_cons_self)]
    rfl

theorem next_split (below : ∀ entry ∈ before, entry.1 ≤ key)
    (above : ∀ entry ∈ after, key < entry.1) :
    next (before ++ after) key = after.head?.map Prod.fst := by
  have skipped : before.find? (fun entry => decide (key < entry.1)) = none :=
    find?_eq_none.mpr fun entry mem => by
      rw [decide_eq_true_eq]
      exact (below entry mem).not_gt
  unfold next
  rw [find?_append, skipped, none_or]
  cases after with
  | nil => rfl
  | cons entry rest =>
    rw [find?_cons, decide_eq_true (above entry mem_cons_self)]
    rfl

section

variable (below : ∀ entry ∈ before, entry.1 < key)
include below

theorem takeWhile_split (above : ∀ entry ∈ after, key ≤ entry.1) :
    (before ++ after).takeWhile (fun entry => decide (entry.1 < key)) = before ∧
      (before ++ after).dropWhile (fun entry => decide (entry.1 < key)) = after := by
  have front : ∀ entry ∈ before, decide (entry.1 < key) = true :=
    fun entry mem => decide_eq_true (below entry mem)
  rw [takeWhile_append_of_pos front, dropWhile_append_of_pos front]
  cases after with
  | nil => exact ⟨append_nil _, rfl⟩
  | cons entry rest =>
    have stops : decide (entry.1 < key) = false :=
      decide_eq_false (above entry mem_cons_self).not_gt
    rw [takeWhile_cons, dropWhile_cons, stops]
    exact ⟨append_nil _, rfl⟩

theorem prev_split (above : ∀ entry ∈ after, key ≤ entry.1) :
    prev (before ++ after) key = before.getLast?.map Prod.fst := by
  unfold prev
  rw [(takeWhile_split below above).1]

theorem find_split : find (before ++ (key, value) :: after) key = some value := by
  have skipped : before.find? (fun entry => decide (entry.1 = key)) = none :=
    find?_eq_none.mpr fun entry mem => by
      rw [decide_eq_true_eq]
      exact (below entry mem).ne
  unfold find
  rw [find?_append, skipped, none_or, find?_cons, decide_eq_true rfl]
  rfl

section

variable (above : ∀ entry ∈ after, key < entry.1)
include above

theorem find_absent : find (before ++ after) key = none := by
  unfold find
  rw [map_eq_none_iff, find?_eq_none]
  intro entry mem
  rw [decide_eq_true_eq]
  rcases mem_append.mp mem with inFront | inBack
  · exact (below entry inFront).ne
  · exact (above entry inBack).ne'

theorem insert_split : insert (before ++ after) key value = before ++ (key, value) :: after := by
  obtain ⟨front, back⟩ := takeWhile_split below fun entry mem => (above entry mem).le
  unfold insert
  rw [find_absent below above]
  rw [front, back]

theorem erase_split : erase (before ++ (key, value) :: after) key = before ++ after := by
  have front : before.filter (fun entry => decide (entry.1 ≠ key)) = before :=
    filter_eq_self.mpr fun entry mem => decide_eq_true (below entry mem).ne
  have back : after.filter (fun entry => decide (entry.1 ≠ key)) = after :=
    filter_eq_self.mpr fun entry mem => decide_eq_true (above entry mem).ne'
  have gone : decide ((key, value).1 ≠ key) = false := decide_eq_false (not_not.mpr rfl)
  unfold erase
  rw [filter_append, filter_cons, gone, front, back]
  rfl

end

end

end NpuPlugin.OrderedMap
