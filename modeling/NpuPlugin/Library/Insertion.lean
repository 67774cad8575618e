/-
This file gives lists into which an entry is inserted behind another one, with the order of two
entries in the longer list, and what a list is after an element has been taken out of it or
replaced by some.
-/

import Mathlib.Data.List.Nodup
import Mathlib.Data.List.Pairwise
import Mathlib.Data.List.Perm.Basic

namespace NpuPlugin.Insertion

open List

variable {Entry : Type*} {list longer before after : List Entry} {first second third : Entry}

/-! ### The order of two entries -/

/-- The first entry stands before the second one. -/
def Precedes (list : List Entry) (first second : Entry) : Prop := [first, second].Sublist list

theorem Precedes.sublist (precedes : Precedes list first second) (sub : list.Sublist longer) :
    Precedes longer first second :=
  List.Sublist.trans precedes sub

theorem Precedes.mem_right (precedes : Precedes list first second) : second ∈ list :=
  precedes.subset (mem_cons_of_mem _ mem_cons_self)

theorem precedes_cons (mem : second ∈ list) : Precedes (first :: list) first second :=
  List.Sublist.cons_cons first (singleton_sublist.mpr mem)

theorem precedes_append (inBefore : first ∈ before) (inAfter : second ∈ after) :
    Precedes (before ++ after) first second :=
  List.Sublist.append (singleton_sublist.mpr inBefore) (singleton_sublist.mpr inAfter)

/-- With no entry twice, what stands before an entry is in front of it. -/
theorem Precedes.mem_front (precedes : Precedes (before ++ second :: after) first second)
    (nodup : (before ++ second :: after).Nodup) : first ∈ before := by
  obtain ⟨-, fresh, apart⟩ := nodup_append.mp nodup
  rcases sublist_append_iff.mp precedes with ⟨front, back, same, inFront, inBack⟩
  match front with
  | [] =>
    rw [nil_append] at same
    rw [← same] at inBack
    -- Both entries would stand at or behind the second one.
    rcases sublist_cons_iff.mp inBack with later | ⟨rest, shape, later⟩
    · exact absurd (later.subset (mem_cons_of_mem _ mem_cons_self))
        (nodup_cons.mp fresh).1
    · cases shape
      exact absurd (later.subset mem_cons_self) (nodup_cons.mp fresh).1
  | entry :: rest =>
    rw [cons_append, List.cons.injEq] at same
    rw [same.1]
    exact inFront.subset mem_cons_self

/-- With no entry twice, what stands after an entry is behind it. -/
theorem Precedes.mem_back (precedes : Precedes (before ++ first :: after) first second)
    (nodup : (before ++ first :: after).Nodup) : second ∈ after := by
  have mirrored : Precedes (after.reverse ++ first :: before.reverse) second first := by
    simpa [Precedes] using List.Sublist.reverse precedes
  have mirroredNodup : (after.reverse ++ first :: before.reverse).Nodup := by
    simpa using nodup_reverse.mpr nodup
  exact mem_reverse.mp (mirrored.mem_front mirroredNodup)

theorem Precedes.trans (precedes : Precedes list first second)
    (follows : Precedes list second third) (nodup : list.Nodup) : Precedes list first third := by
  obtain ⟨before, after, rfl⟩ := append_of_mem precedes.mem_right
  exact precedes_append (precedes.mem_front nodup)
    (mem_cons_of_mem _ (follows.mem_back nodup))

theorem Precedes.rel {relation : Entry → Entry → Prop} (precedes : Precedes list first second)
    (sorted : list.Pairwise relation) : relation first second :=
  pairwise_pair.mp (List.Pairwise.sublist precedes sorted)

theorem precedes_or_precedes (isFirst : first ∈ list) (isSecond : second ∈ list)
    (different : first ≠ second) : Precedes list first second ∨ Precedes list second first := by
  obtain ⟨before, after, rfl⟩ := append_of_mem isSecond
  rcases mem_append.mp isFirst with inBefore | inRest
  · exact .inl (precedes_append inBefore mem_cons_self)
  · exact .inr ((precedes_cons ((mem_cons.mp inRest).resolve_left different)).sublist
      (sublist_append_right _ _))

theorem Precedes.filterMap {Image : Type*} {image : Entry → Option Image} {one other : Image}
    (precedes : Precedes list first second) (isOne : image first = some one)
    (isOther : image second = some other) : Precedes (list.filterMap image) one other := by
  have mapped := List.Sublist.filterMap image precedes
  rw [filterMap_cons, isOne, filterMap_cons, isOther] at mapped
  exact mapped

/-! ### Insertion -/

variable [DecidableEq Entry]

/-- An entry is inserted behind another one. -/
def insertAfter (anchor entry : Entry) : List Entry → List Entry
  | [] => []
  | first :: rest =>
    if first = anchor then first :: entry :: rest else first :: insertAfter anchor entry rest

theorem insertAfter_eq {anchor : Entry} (entry : Entry) (mem : anchor ∈ list) :
    ∃ before after, list = before ++ anchor :: after ∧
      insertAfter anchor entry list = before ++ anchor :: entry :: after := by
  induction list with
  | nil => exact absurd mem not_mem_nil
  | cons head rest ih =>
    rw [insertAfter]
    split
    · rename_i same
      exact ⟨[], rest, by rw [same, nil_append], by rw [same, nil_append]⟩
    · rename_i different
      obtain ⟨before, after, split, inserted⟩ := ih
        ((mem_cons.mp mem).resolve_left fun same => different same.symm)
      exact ⟨head :: before, after, by rw [split, cons_append],
        by rw [inserted, cons_append]⟩

section

variable {anchor entry other : Entry}

theorem sublist_insertAfter (entry : Entry) (mem : anchor ∈ list) :
    list.Sublist (insertAfter anchor entry list) := by
  obtain ⟨before, after, rfl, inserted⟩ := insertAfter_eq entry mem
  rw [inserted]
  exact List.Sublist.append_left
    (List.Sublist.cons_cons anchor (sublist_cons_self entry after)) before

theorem mem_insertAfter (mem : anchor ∈ list) :
    other ∈ insertAfter anchor entry list ↔ other ∈ list ∨ other = entry := by
  obtain ⟨before, after, rfl, inserted⟩ := insertAfter_eq entry mem
  rw [inserted]
  simp only [mem_append, mem_cons]
  tauto

theorem nodup_insertAfter (nodup : list.Nodup) (fresh : entry ∉ list) (mem : anchor ∈ list) :
    (insertAfter anchor entry list).Nodup := by
  obtain ⟨before, after, rfl, inserted⟩ := insertAfter_eq entry mem
  have same : (before ++ anchor :: entry :: after).Perm (entry :: (before ++ anchor :: after)) := by
    rw [show before ++ anchor :: entry :: after = (before ++ [anchor]) ++ entry :: after by simp,
      show before ++ anchor :: after = (before ++ [anchor]) ++ after by simp]
    exact perm_middle
  rw [inserted]
  exact same.nodup_iff.mpr (nodup_cons.mpr ⟨fresh, nodup⟩)

theorem precedes_insertAfter (nodup : list.Nodup) (mem : anchor ∈ list)
    (atOrBefore : other = anchor ∨ Precedes list other anchor) :
    Precedes (insertAfter anchor entry list) other entry := by
  obtain ⟨before, after, rfl, inserted⟩ := insertAfter_eq entry mem
  rw [inserted]
  rcases atOrBefore with rfl | precedes
  · exact (precedes_cons mem_cons_self).sublist (sublist_append_right _ _)
  · exact precedes_append (precedes.mem_front nodup)
      (mem_cons_of_mem _ mem_cons_self)

theorem insertAfter_precedes (entry : Entry) (nodup : list.Nodup) (mem : anchor ∈ list)
    (behind : Precedes list anchor other) :
    Precedes (insertAfter anchor entry list) entry other := by
  obtain ⟨before, after, rfl, inserted⟩ := insertAfter_eq entry mem
  rw [inserted]
  exact (precedes_cons (behind.mem_back nodup)).sublist
    ((sublist_cons_self _ _).trans (sublist_append_right _ _))

theorem filterMap_insertAfter {Image : Type*} {image : Entry → Option Image}
    (without : image entry = none) :
    (insertAfter anchor entry list).filterMap image = list.filterMap image := by
  induction list with
  | nil => rfl
  | cons head rest ih =>
    rw [insertAfter]
    split
    · rw [filterMap_cons, filterMap_cons_none without, filterMap_cons]
    · rw [filterMap_cons, ih, filterMap_cons]

end

end NpuPlugin.Insertion

namespace NpuPlugin.Moves

open List

variable {Item : Type} [DecidableEq Item] {before after : List Item} {item : Item}

theorem flatMap_replace (replacement : Item → List Item) (apartBefore : item ∉ before)
    (apartAfter : item ∉ after) :
    (before ++ item :: after).flatMap
        (fun other => if other = item then replacement other else [other]) =
      before ++ (replacement item ++ after) := by
  have same : ∀ list : List Item, item ∉ list →
      list.flatMap (fun other => if other = item then replacement other else [other]) = list := by
    intro list apart
    induction list with
    | nil => rfl
    | cons other rest ih =>
      obtain ⟨first, later⟩ := not_or.mp fun either => apart (mem_cons.mpr either)
      rw [flatMap_cons, if_neg (Ne.symm first), ih later]
      rfl
  rw [flatMap_append, flatMap_cons, same before apartBefore, same after apartAfter, if_pos rfl]

theorem erase_around {kept : List Item} (fresh : item ∉ kept) (mem : item ∈ before ++ after) :
    ∃ restBefore restAfter, (before ++ (kept ++ after)).erase item =
        restBefore ++ (kept ++ restAfter) ∧
      (item :: (restBefore ++ restAfter)).Perm (before ++ after) := by
  by_cases inBefore : item ∈ before
  · refine ⟨before.erase item, after, ?_, ?_⟩
    · rw [erase_append, if_pos inBefore]
    · exact ((perm_cons_erase inBefore).append_right after).symm
  · have inAfter := (mem_append.mp mem).resolve_left inBefore
    refine ⟨before, after.erase item, ?_, ?_⟩
    · rw [erase_append, if_neg inBefore, erase_append, if_neg fresh]
    · exact .trans perm_middle.symm ((perm_cons_erase inAfter).symm.append_left before)

end NpuPlugin.Moves
