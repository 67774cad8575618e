/-
This file is about erasing elements of a list one after the other, each at the place it has in the
list that the erasures before have left, and about when this erases the elements that stood at
these places at first.
-/

import Mathlib.Algebra.Ring.Nat
import Mathlib.Algebra.BigOperators.Group.Finset.Basic
import Mathlib.Algebra.Order.BigOperators.Group.List

namespace NpuPlugin

open List Nat

/-! ### Erasing and deleting -/

variable {Entry Label : Type*}

/-- Erases the element at each of the places, one after the other. A place counts in the list that
the erasures before have left, and a place outside of it is undefined. -/
def eraseEach : List Nat → List Entry → Option (List Entry)
  | [], list => some list
  | place :: places, list =>
    if place < list.length then eraseEach places (list.eraseIdx place) else none

/-- The list without the elements that stand at the given places, the others in their order. -/
def deleteAt (places : List Nat) (list : List Entry) : List Entry :=
  (list.zipIdx.filter fun entry => entry.2 ∉ places).map Prod.fst

variable {places : List Nat} {list : List Entry} (label : Entry → Label)

theorem eraseEach_map (places : List Nat) (list : List Entry) :
    eraseEach places (list.map label) = (eraseEach places list).map (List.map label) := by
  induction places generalizing list with
  | nil => rfl
  | cons place places ih =>
    rw [eraseEach, eraseEach, length_map, eraseIdx_map]
    split
    · exact ih _
    · rfl

theorem deleteAt_map (places : List Nat) (list : List Entry) :
    deleteAt places (list.map label) = (deleteAt places list).map label := by
  rw [deleteAt, deleteAt, zipIdx_map, filter_map, map_map, map_map]
  rfl

theorem eraseEach_sublist {left : List Entry} (erased : eraseEach places list = some left) :
    left.Sublist list := by
  induction places generalizing list with
  | nil =>
    cases erased
    exact List.Sublist.refl _
  | cons place places ih =>
    rw [eraseEach] at erased
    split at erased
    · exact (ih erased).trans (eraseIdx_sublist _ _)
    · exact absurd erased (by simp)

/-- What is kept before an element that is kept stands in front of it. -/
theorem mem_front_of_deleteAt {front rest : List Entry} {entry : Entry}
    (split : deleteAt places list = front ++ entry :: rest) :
    ∃ place, list[place]? = some entry ∧ place ∉ places ∧
      ∀ (earlier : Nat) (other : Entry), earlier < place → earlier ∉ places →
        list[earlier]? = some other → other ∈ front := by
  obtain ⟨before, after, kept, rfl, follows⟩ := map_eq_append_iff.mp split
  obtain ⟨⟨value, place⟩, later, rfl, rfl, -⟩ := map_eq_cons_iff.mp follows
  have ascending : (before ++ (value, place) :: later).Pairwise fun first second =>
      first.2 < second.2 := by
    rw [← kept]
    refine List.Pairwise.filter _ ?_
    have numbers : (list.zipIdx.map Prod.snd).Pairwise (· < ·) := by
      rw [zipIdx_map_snd]
      exact pairwise_lt_range'
    exact pairwise_map.mp numbers
  have is_kept : ∀ other earlier, (other, earlier) ∈ before ++ (value, place) :: later ↔
      list[earlier]? = some other ∧ earlier ∉ places := by
    intro other earlier
    rw [← kept, mem_filter, mk_mem_zipIdx_iff_getElem?, decide_eq_true_eq]
  obtain ⟨stands, free⟩ := (is_kept value place).mp (by simp)
  refine ⟨place, stands, free, fun earlier other below unlisted found => ?_⟩
  have mem := (is_kept other earlier).mpr ⟨found, unlisted⟩
  obtain ⟨-, tail_ascending, -⟩ := pairwise_append.mp ascending
  have behind := (pairwise_cons.mp tail_ascending).1
  rcases mem_append.mp mem with inside | outside
  · exact mem_map.mpr ⟨(other, earlier), inside, rfl⟩
  · rcases mem_cons.mp outside with same | outside
    · exact absurd (Prod.mk.inj same).2 below.ne
    · exact absurd (behind (other, earlier) outside) (lt_asymm below)

theorem filter_deleteAt {chosen : Entry → Bool}
    (untouched : ∀ place ∈ places, ∀ entry, list[place]? = some entry → chosen entry = false) :
    (deleteAt places list).filter chosen = list.filter chosen := by
  have projected := zipIdx_map_fst 0 list
  conv_rhs => rw [← projected, filter_map]
  rw [deleteAt, filter_map, filter_filter]
  refine congrArg _ (filter_congr fun entry mem => ?_)
  cases choose : chosen entry.1 with
  | false => simp [choose]
  | true =>
    have stands := mk_mem_zipIdx_iff_getElem?.mp mem
    have free : entry.2 ∉ places := fun listed =>
      absurd (untouched entry.2 listed entry.1 stands) (by simp [choose])
    simp [choose, free]

/-! ### Erasing numbers -/

/-- Every number is at least its place. -/
def AtLeastPlace (list : List Nat) : Prop :=
  ∀ place number : Nat, list[place]? = some number → place ≤ number

theorem atLeastPlace_range (n : Nat) : AtLeastPlace (List.range n) := by
  intro place number found
  have bound : place < n := by
    have := (List.getElem?_eq_some_iff.mp found).1
    simpa using this
  rw [getElem?_range bound] at found
  exact (Option.some.inj found).le

theorem AtLeastPlace.eraseIdx {list : List Nat} (least : AtLeastPlace list) (erased : Nat) :
    AtLeastPlace (list.eraseIdx erased) := by
  intro place number found
  rw [getElem?_eraseIdx] at found
  split at found
  · exact least place number found
  · exact le_of_succ_le (least (place + 1) number found)

theorem sum_eraseIdx {list : List Nat} {place : Nat} (bound : place < list.length) :
    (list.eraseIdx place).sum + list[place] = list.sum := by
  have perm := getElem_cons_eraseIdx_perm bound
  rw [← perm.sum_eq, sum_cons, add_comm]

/-- The erased numbers weigh at least as much as their places. -/
theorem sum_eraseEach {list left : List Nat} (least : AtLeastPlace list)
    (erased : eraseEach places list = some left) : left.sum + places.sum ≤ list.sum := by
  induction places generalizing list with
  | nil =>
    cases erased
    simp
  | cons place places ih =>
    rw [eraseEach] at erased
    split at erased
    · rename_i bound
      have rest := ih (least.eraseIdx place) erased
      have here := least place _ (getElem?_eq_getElem bound)
      have total := sum_eraseIdx bound
      rw [sum_cons]
      omega
    · exact absurd erased (by simp)

theorem length_eraseEach {left : List Entry} (erased : eraseEach places list = some left) :
    left.length + places.length = list.length := by
  induction places generalizing list with
  | nil =>
    cases erased
    rfl
  | cons place places ih =>
    rw [eraseEach] at erased
    split at erased
    · rename_i bound
      have rest := ih erased
      rw [length_eraseIdx_of_lt bound] at rest
      rw [length_cons]
      omega
    · exact absurd erased (by simp)

/-- When the erased numbers weigh no more than their places, each of them is its own place, which
only holds when the places descend. -/
theorem descending_of_sum {list left : List Nat} (least : AtLeastPlace list)
    (erased : eraseEach places list = some left) (balanced : left.sum + places.sum = list.sum) :
    places.Pairwise (· > ·) ∧ ∀ place ∈ places, list[place]? = some place := by
  induction places generalizing list with
  | nil => exact ⟨List.Pairwise.nil, by simp⟩
  | cons place places ih =>
    rw [eraseEach] at erased
    split at erased
    · rename_i bound
      have here := least place _ (getElem?_eq_getElem bound)
      have total := sum_eraseIdx bound
      have rest := sum_eraseEach (least.eraseIdx place) erased
      rw [sum_cons] at balanced
      have own : list[place] = place := by omega
      obtain ⟨descending, places_own⟩ := ih (least.eraseIdx place) erased (by omega)
      -- Behind the erased number every number is above its new place.
      have before : ∀ later ∈ places, later < place := by
        intro later mem
        by_contra above
        have found := places_own later mem
        rw [getElem?_eraseIdx, if_neg above] at found
        exact absurd (least (later + 1) later found) (by omega)
      refine ⟨pairwise_cons.mpr ⟨before, descending⟩, fun later mem => ?_⟩
      rcases mem_cons.mp mem with rfl | mem
      · rw [getElem?_eq_getElem bound, own]
      · have found := places_own later mem
        rwa [getElem?_eraseIdx, if_pos (before later mem)] at found
    · exact absurd erased (by simp)

/-- Descending places of a list of different numbers that are their own places are erased as
they stand. -/
theorem eraseEach_of_descending {list : List Nat} (nodup : list.Nodup)
    (descending : places.Pairwise (· > ·)) (own : ∀ place ∈ places, list[place]? = some place) :
    eraseEach places list = some (list.filter (· ∉ places)) := by
  induction places generalizing list with
  | nil => simp [eraseEach]
  | cons place places ih =>
    obtain ⟨before, descending⟩ := pairwise_cons.mp descending
    have found := own place mem_cons_self
    obtain ⟨bound, value⟩ := List.getElem?_eq_some_iff.mp found
    have erase : list.eraseIdx place = list.filter (· != place) := by
      rw [← nodup.erase_getElem place bound, value, nodup.erase_eq_filter]
    have kept : ∀ later ∈ places, (list.eraseIdx place)[later]? = some later := by
      intro later mem
      rw [getElem?_eraseIdx, if_pos (before later mem)]
      exact own later (mem_cons_of_mem _ mem)
    rw [eraseEach, if_pos bound, ih (nodup.eraseIdx place) descending kept, erase, filter_filter]
    refine congrArg some (filter_congr fun number _ => ?_)
    simp only [mem_cons, not_or, Bool.decide_and, bne, Bool.and_comm, decide_not]
    rfl

/-! ### When what stood at the places is erased -/

/-- Erasing places of `0, …, n - 1` deletes the numbers at these places exactly when the places
descend. -/
theorem eraseEach_range_iff {n : Nat} (bounds : ∀ place ∈ places, place < n) :
    eraseEach places (List.range n) = some ((List.range n).filter (· ∉ places)) ↔
      places.Pairwise (· > ·) := by
  have own : ∀ place ∈ places, (range n)[place]? = some place :=
    fun place mem => getElem?_range (bounds place mem)
  refine ⟨fun erased => ?_, fun descending => eraseEach_of_descending nodup_range descending own⟩
  refine (descending_of_sum (atLeastPlace_range n) erased ?_).1
  -- As many numbers are deleted as there are places, so no place is listed twice.
  have perm := filter_append_perm (fun number => decide (number ∈ places)) (range n)
  have count := perm.length_eq
  have total := perm.sum_eq
  rw [length_append] at count
  rw [sum_append] at total
  have counted := length_eraseEach erased
  have subset : ∀ number, number ∈ (range n).filter (· ∈ places) ↔ number ∈ places := by
    intro number
    simp only [mem_filter, mem_range, decide_eq_true_eq]
    exact ⟨And.right, fun mem => ⟨bounds number mem, mem⟩⟩
  have nodup : ((range n).filter (· ∈ places)).Nodup := nodup_range.filter _
  have included : ((range n).filter (· ∈ places)).Subperm places :=
    nodup.subperm fun number mem => (subset number).mp mem
  have same := included.perm_of_length_le (by simp only [decide_not] at counted; omega)
  rw [← same.sum_eq, add_comm]
  simpa using total

variable {project : Entry → Label}

/-- A projection that tells the elements of two lists apart tells the lists apart. -/
theorem map_eq_map_iff_of_injective {other : List Entry}
    (injective : ∀ entry ∈ list, ∀ second ∈ other, project entry = project second →
      entry = second) : list.map project = other.map project ↔ list = other := by
  refine ⟨fun equal => ?_, congrArg _⟩
  induction list generalizing other with
  | nil => exact (map_eq_nil_iff.mp equal.symm).symm
  | cons entry list ih =>
    cases other with
    | nil => exact absurd equal (by simp)
    | cons second other =>
      rw [map_cons, map_cons, cons.injEq] at equal
      rw [injective entry mem_cons_self second mem_cons_self equal.1,
        ih (fun entry mem second member_other =>
          injective entry (mem_cons_of_mem _ mem) second
            (mem_cons_of_mem _ member_other)) equal.2]

/-- A projection that tells the elements of a list apart does not hide what is erased. -/
theorem eraseEach_map_eq_iff (places : List Nat) {kept : List Entry}
    (distinct : (list.map project).Nodup) (mem : ∀ entry ∈ kept, entry ∈ list) :
    eraseEach places (list.map project) = some (kept.map project) ↔
      eraseEach places list = some kept := by
  rw [eraseEach_map]
  cases run : eraseEach places list with
  | none => simp
  | some left =>
    rw [Option.map_some, Option.some.injEq, Option.some.injEq]
    refine map_eq_map_iff_of_injective fun entry found second keeps => ?_
    exact inj_on_of_nodup_map distinct ((eraseEach_sublist run).subset found)
      (mem second keeps)

/-- Erasing places of a list without duplicates deletes what stood at these places exactly when
the places descend. -/
theorem eraseEach_eq_deleteAt_iff (bounds : ∀ place ∈ places, place < list.length)
    (nodup : list.Nodup) :
    eraseEach places list = some (deleteAt places list) ↔ places.Pairwise (· > ·) := by
  -- The entries with their places project to the list and to the numbers of its places.
  have entries : list.zipIdx.map Prod.fst = list := zipIdx_map_fst 0 list
  have numbers : list.zipIdx.map Prod.snd = range list.length := by
    rw [zipIdx_map_snd, range_eq_range']
  have filtered : (list.zipIdx.filter fun entry => entry.2 ∉ places).map Prod.snd =
      (range list.length).filter (· ∉ places) := by
    rw [← numbers, filter_map]
    rfl
  have mem : ∀ entry ∈ list.zipIdx.filter (fun entry => entry.2 ∉ places),
      entry ∈ list.zipIdx := fun _ => mem_of_mem_filter
  have by_entries := eraseEach_map_eq_iff places (by rw [entries]; exact nodup) mem
  have by_numbers := eraseEach_map_eq_iff places (by rw [numbers]; exact nodup_range) mem
  rw [entries] at by_entries
  rw [numbers, filtered] at by_numbers
  rw [deleteAt, by_entries, ← by_numbers, eraseEach_range_iff bounds]

/-- Descending places of any list are erased as they stand. -/
theorem eraseEach_eq_deleteAt (bounds : ∀ place ∈ places, place < list.length)
    (descending : places.Pairwise (· > ·)) :
    eraseEach places list = some (deleteAt places list) := by
  have entries : list.zipIdx.map Prod.fst = list := zipIdx_map_fst 0 list
  have numbers : list.zipIdx.map Prod.snd = range list.length := by
    rw [zipIdx_map_snd, range_eq_range']
  have distinct : list.zipIdx.Nodup :=
    List.Nodup.of_map Prod.snd (by rw [numbers]; exact nodup_range)
  have zipped := (eraseEach_eq_deleteAt_iff (by simpa using bounds) distinct).mpr descending
  have mapped := eraseEach_map Prod.fst places list.zipIdx
  rw [entries, zipped, Option.map_some, ← deleteAt_map, entries] at mapped
  exact mapped

/-! ### What is left of a list whose entries changed -/

/-- The second list is what is left of the first one, from the place `start` on, without the entries
at the given places, each of the others changed as the relation says. -/
inductive Left (places : List Nat) (Changed : Entry → Label → Prop) :
    Nat → List Entry → List Label → Prop
  | nil {start : Nat} : Left places Changed start [] []
  | drop {start : Nat} {entry : Entry} {list : List Entry} {left : List Label} :
    start ∈ places → Left places Changed (start + 1) list left →
      Left places Changed start (entry :: list) left
  | keep {start : Nat} {entry : Entry} {list : List Entry} {label : Label} {left : List Label} :
    start ∉ places → Changed entry label → Left places Changed (start + 1) list left →
      Left places Changed start (entry :: list) (label :: left)

namespace Left

variable {places : List Nat} {Changed : Entry → Label → Prop} {start : Nat} {list : List Entry}
  {left : List Label}

theorem of_deleteAt {changed : List Label} (related : List.Forall₂ Changed list changed) :
    Left places Changed 0 list (deleteAt places changed) := by
  have from_start : ∀ start, Left places Changed start list
      (((changed.zipIdx start).filter fun entry => entry.2 ∉ places).map Prod.fst) := by
    induction related with
    | nil => exact fun _ => nil
    | cons here _ ih =>
      intro start
      rw [zipIdx_cons, filter_cons]
      by_cases listed : start ∈ places
      · rw [if_neg (by simp [listed])]
        exact drop listed (ih (start + 1))
      · rw [if_pos (by simp [listed]), map_cons]
        exact keep listed here (ih (start + 1))
  exact from_start 0

theorem shift (first : Entry) (before : List Entry) (start : Nat) :
    start + 1 + before.length = start + (first :: before).length := by
  rw [length_cons]
  omega

theorem split {front rest : List Label} {label : Label}
    (isLeft : Left places Changed start list (front ++ label :: rest)) :
    ∃ before entry after, list = before ++ entry :: after ∧
      Left places Changed start before front ∧ start + before.length ∉ places ∧
      Changed entry label ∧ Left places Changed (start + before.length + 1) after rest := by
  induction list generalizing start front with
  | nil => cases front <;> cases isLeft
  | cons first list ih =>
    generalize same : front ++ label :: rest = left at isLeft
    cases isLeft with
    | drop listed isLeft =>
      rw [← same] at isLeft
      obtain ⟨before, entry, after, rfl, isFront, free, changed, isRest⟩ := ih isLeft
      rw [shift first before start] at free isRest
      exact ⟨first :: before, entry, after, rfl, drop listed isFront, free, changed, isRest⟩
    | keep free changed isLeft =>
      cases front with
      | nil =>
        obtain ⟨rfl, rfl⟩ := cons.inj same
        exact ⟨[], first, list, rfl, nil, free, changed, isLeft⟩
      | cons _ front =>
        obtain ⟨rfl, rfl⟩ := cons.inj same
        obtain ⟨before, entry, after, rfl, isFront, free', changed', isRest⟩ := ih isLeft
        rw [shift first before start] at free' isRest
        exact ⟨first :: before, entry, after, rfl, keep free changed isFront, free', changed',
          isRest⟩

variable {before after : List Entry}

theorem append (isLeft : Left places Changed start (before ++ after) left) :
    ∃ front rest, left = front ++ rest ∧ Left places Changed start before front ∧
      Left places Changed (start + before.length) after rest := by
  induction before generalizing start left with
  | nil => exact ⟨[], left, rfl, nil, isLeft⟩
  | cons first before ih =>
    cases isLeft with
    | drop listed isLeft =>
      obtain ⟨front, rest, rfl, isFront, isRest⟩ := ih isLeft
      rw [shift first before start] at isRest
      exact ⟨front, rest, rfl, drop listed isFront, isRest⟩
    | keep free changed isLeft =>
      obtain ⟨front, rest, rfl, isFront, isRest⟩ := ih isLeft
      rw [shift first before start] at isRest
      exact ⟨_ :: front, rest, rfl, keep free changed isFront, isRest⟩

theorem keeps {entry : Entry} (isLeft : Left places Changed start (before ++ entry :: after) left)
    (free : start + before.length ∉ places) :
    ∃ front label rest, left = front ++ label :: rest ∧ Left places Changed start before front ∧
      Changed entry label ∧ Left places Changed (start + before.length + 1) after rest := by
  obtain ⟨front, rest, rfl, isFront, isRest⟩ := isLeft.append
  cases isRest with
  | drop listed _ => exact absurd listed free
  | keep _ changed isRest => exact ⟨front, _, _, rfl, isFront, changed, isRest⟩

theorem exists_of_mem (isLeft : Left places Changed start list left) {label : Label}
    (mem : label ∈ left) : ∃ entry ∈ list, Changed entry label := by
  induction isLeft with
  | nil => exact absurd mem not_mem_nil
  | drop _ _ ih =>
    obtain ⟨entry, inside, changed⟩ := ih mem
    exact ⟨entry, mem_cons_of_mem _ inside, changed⟩
  | keep _ changed _ ih =>
    rcases mem_cons.mp mem with rfl | later
    · exact ⟨_, mem_cons_self, changed⟩
    · obtain ⟨entry, inside, changed⟩ := ih later
      exact ⟨entry, mem_cons_of_mem _ inside, changed⟩

end Left

end NpuPlugin
