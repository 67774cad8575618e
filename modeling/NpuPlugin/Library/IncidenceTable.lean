/-
This file models sets that keep a few elements in the order of their insertion and move them to a
sorted set when one no longer fits, and a relation that is stored twice: each row has the set of its
columns and each column the set of its rows.
-/

import Mathlib.Data.List.GetD
import Mathlib.Data.List.Sort

namespace NpuPlugin

open List

/-- The elements in the order in which the set is traversed. -/
structure SmallSet (Value : Type) [LinearOrder Value] (capacity : Nat) where
  elements : List Value
  isSmall : Bool
  nodup : elements.Nodup
  sorted : isSmall = false → elements.Pairwise (· ≤ ·)
deriving DecidableEq

namespace SmallSet

variable {Value : Type} [LinearOrder Value] {capacity : Nat}

instance : EmptyCollection (SmallSet Value capacity) :=
  ⟨⟨[], true, nodup_nil, fun _ => List.Pairwise.nil⟩⟩

instance : Inhabited (SmallSet Value capacity) := ⟨∅⟩

instance : Membership Value (SmallSet Value capacity) := ⟨fun set value => value ∈ set.elements⟩

theorem mem_elements {set : SmallSet Value capacity} {value : Value} :
    value ∈ set.elements ↔ value ∈ set :=
  Iff.rfl

instance (set : SmallSet Value capacity) (value : Value) : Decidable (value ∈ set) :=
  inferInstanceAs (Decidable (value ∈ set.elements))

/-- The elements and one more in increasing order. -/
def grown (set : SmallSet Value capacity) (value : Value) : List Value :=
  (set.elements.insertionSort (· ≤ ·)).orderedInsert (· ≤ ·) value

variable (set : SmallSet Value capacity) (value : Value)

theorem grown_perm : (set.grown value).Perm (value :: set.elements) :=
  (perm_orderedInsert _ value _).trans ((perm_insertionSort _ _).cons value)

theorem grown_sorted : (set.grown value).Pairwise (· ≤ ·) :=
  (pairwise_insertionSort _ _).orderedInsert value _

/-- Elements are appended while they fit. -/
def insert (value : Value) (set : SmallSet Value capacity) : SmallSet Value capacity :=
  if present : value ∈ set.elements then set
  else if set.isSmall && set.elements.length < capacity then
    ⟨set.elements ++ [value], true, by
      rw [nodup_append_comm]
      exact nodup_cons.mpr ⟨present, set.nodup⟩, fun large => Bool.noConfusion large⟩
  else
    ⟨set.grown value, false, (set.grown_perm value).nodup_iff.mpr
      (nodup_cons.mpr ⟨present, set.nodup⟩), fun _ => set.grown_sorted value⟩

/-- A sorted set that becomes empty counts as small again. -/
def erase (value : Value) (set : SmallSet Value capacity) : SmallSet Value capacity :=
  ⟨set.elements.erase value, set.isSmall || (set.elements.erase value).isEmpty,
    set.nodup.erase value, fun large =>
      (set.sorted (Bool.or_eq_false_iff.mp large).1).sublist erase_sublist⟩

def isEmpty (set : SmallSet Value capacity) : Bool := set.elements.isEmpty

def ofList (values : List Value) : SmallSet Value capacity :=
  values.foldl (fun set value => set.insert value) ∅

/-- The elements that satisfy a test, inserted one after the other. -/
def filter (keep : Value → Bool) (set : SmallSet Value capacity) : SmallSet Value capacity :=
  ofList (set.elements.filter keep)

def union (set other : SmallSet Value capacity) : SmallSet Value capacity :=
  other.elements.foldl (fun set value => set.insert value) set

/-- The comparison of two sets. -/
def sameElements (set other : SmallSet Value capacity) : Bool :=
  set.elements.length = other.elements.length &&
    set.elements.all fun value => decide (value ∈ other)

/-! ### Membership -/

variable {value other : Value} {set : SmallSet Value capacity}

@[simp] theorem not_mem_empty : value ∉ (∅ : SmallSet Value capacity) := not_mem_nil

@[simp] theorem mem_insert : value ∈ set.insert other ↔ value ∈ set ∨ value = other := by
  unfold insert
  split
  · next present =>
    refine ⟨Or.inl, fun mem => mem.elim id fun equal => ?_⟩
    rw [equal]
    exact present
  · split
    · show value ∈ set.elements ++ [other] ↔ _
      rw [mem_append, mem_singleton, mem_elements]
    · show value ∈ set.grown other ↔ _
      rw [(set.grown_perm other).mem_iff, mem_cons, mem_elements, or_comm]

@[simp] theorem mem_erase : value ∈ set.erase other ↔ value ∈ set ∧ value ≠ other := by
  show value ∈ set.elements.erase other ↔ _
  rw [set.nodup.mem_erase_iff, and_comm, mem_elements]

theorem mem_foldl_insert (values : List Value) (set : SmallSet Value capacity) :
    value ∈ values.foldl (fun set value => set.insert value) set ↔
      value ∈ set ∨ value ∈ values := by
  induction values generalizing set with
  | nil => simp
  | cons head tail ih => rw [foldl_cons, ih, mem_insert, mem_cons, or_assoc]

@[simp] theorem mem_ofList {values : List Value} :
    value ∈ (ofList values : SmallSet Value capacity) ↔ value ∈ values := by
  unfold ofList
  rw [mem_foldl_insert]
  simp

@[simp] theorem mem_filter {keep : Value → Bool} :
    value ∈ set.filter keep ↔ value ∈ set ∧ keep value = true := by
  unfold filter
  rw [mem_ofList, List.mem_filter, mem_elements]

variable {first second : SmallSet Value capacity}

@[simp] theorem mem_union : value ∈ first.union second ↔ value ∈ first ∨ value ∈ second :=
  mem_foldl_insert _ _

theorem isEmpty_iff : set.isEmpty = true ↔ ∀ value, value ∉ set := by
  unfold isEmpty
  rw [List.isEmpty_iff, eq_nil_iff_forall_not_mem]
  rfl

theorem isEmpty_eq_false_iff : set.isEmpty = false ↔ ∃ value, value ∈ set := by
  rw [← Bool.not_eq_true, isEmpty_iff]
  push Not
  rfl

theorem sameElements_iff :
    first.sameElements second = true ↔ ∀ value, value ∈ first ↔ value ∈ second := by
  have contained : (first.elements.all fun value => decide (value ∈ second)) = true ↔
      first.elements ⊆ second.elements := by
    rw [all_eq_true]
    exact forall₂_congr fun _ _ => decide_eq_true_iff
  unfold sameElements
  rw [Bool.and_eq_true, decide_eq_true_eq, contained]
  constructor
  · rintro ⟨length, subset⟩ value
    have perm := (subperm_of_subset first.nodup subset).perm_of_length_le length.ge
    exact perm.mem_iff
  · intro same
    have perm := (perm_ext_iff_of_nodup first.nodup second.nodup).mpr same
    exact ⟨perm.length_eq, perm.subset⟩

theorem length_lt_two_iff :
    set.elements.length < 2 ↔ ∀ first ∈ set, ∀ second ∈ set, first = second := by
  constructor
  · intro short first firstMember second secondMember
    match shape : set.elements, short with
    | [], _ => exact absurd (shape ▸ mem_elements.mpr firstMember) not_mem_nil
    | [only], _ =>
      rw [← mem_elements, shape, mem_singleton] at firstMember secondMember
      exact firstMember.trans secondMember.symm
  · intro same
    have nodup := set.nodup
    match shape : set.elements with
    | [] => exact Nat.zero_lt_two
    | [_] => exact Nat.one_lt_two
    | first :: second :: rest =>
      rw [shape] at nodup
      refine absurd (same first ?_ second ?_) ?_
      · rw [← mem_elements, shape]
        exact mem_cons_self
      · rw [← mem_elements, shape]
        exact mem_cons_of_mem _ mem_cons_self
      · exact fun equal => (nodup_cons.mp nodup).1 (equal ▸ mem_cons_self)

end SmallSet

/-! ### Tables -/

open Nat SmallSet

/-- For each row the set of its columns, and for each column the set of its rows. -/
structure IncidenceTable (capacity : Nat) where
  rows : List (SmallSet Nat capacity)
  columns : List (SmallSet Nat capacity)
deriving DecidableEq

namespace IncidenceTable

variable {capacity : Nat}

/-! ### Operations -/

variable (table : IncidenceTable capacity)

def row (idx : Nat) : SmallSet Nat capacity := table.rows.getD idx ∅

def column (idx : Nat) : SmallSet Nat capacity := table.columns.getD idx ∅

def empty (height width : Nat) : IncidenceTable capacity :=
  ⟨List.replicate height ∅, List.replicate width ∅⟩

def link (row column : Nat) (table : IncidenceTable capacity) : IncidenceTable capacity :=
  ⟨table.rows.modify row (·.insert column), table.columns.modify column (·.insert row)⟩

def unlink (row column : Nat) (table : IncidenceTable capacity) : IncidenceTable capacity :=
  ⟨table.rows.modify row (·.erase column), table.columns.modify column (·.erase row)⟩

def addRow : IncidenceTable capacity := ⟨table.rows ++ [∅], table.columns⟩

def clearRow (row : Nat) (table : IncidenceTable capacity) : IncidenceTable capacity :=
  ⟨table.rows.modify row fun _ => ∅,
    (table.row row).elements.foldl (fun columns column => columns.modify column (·.erase row))
      table.columns⟩

def setColumn (column : Nat) (values : SmallSet Nat capacity) (table : IncidenceTable capacity) :
    IncidenceTable capacity :=
  let remaining := (table.column column).elements.foldl
    (fun rows row => rows.modify row (·.erase column)) table.rows
  ⟨values.elements.foldl (fun rows row => rows.modify row (·.insert column)) remaining,
    table.columns.modify column fun _ => values⟩

def linkAll (row : Nat) (columns : List Nat) (table : IncidenceTable capacity) :
    IncidenceTable capacity :=
  columns.foldl (fun table column => table.link row column) table

def unlinkAll (row : Nat) (columns : List Nat) (table : IncidenceTable capacity) :
    IncidenceTable capacity :=
  columns.foldl (fun table column => table.unlink row column) table

/-! ### The relation of a table -/

def Linked (row column : Nat) : Prop := column ∈ table.row row

instance (table : IncidenceTable capacity) (row column : Nat) :
    Decidable (table.Linked row column) :=
  inferInstanceAs (Decidable (column ∈ table.row row))

/-- The columns say the same as the rows. -/
def Mirrored : Prop := ∀ row column, row ∈ table.column column ↔ table.Linked row column

theorem mem_row {table : IncidenceTable capacity} {row column : Nat} :
    column ∈ table.row row ↔ table.Linked row column :=
  Iff.rfl

/-- One of the two stores after one of its sets was changed. -/
theorem mem_getD_modify (sets : List (SmallSet Nat capacity))
    (change : SmallSet Nat capacity → SmallSet Nat capacity) (idx other value : Nat) :
    value ∈ (sets.modify idx change).getD other ∅ ↔
      if idx = other ∧ other < sets.length then value ∈ change (sets.getD other ∅)
      else value ∈ sets.getD other ∅ := by
  rw [getD_eq_getElem?_getD, getD_eq_getElem?_getD, getElem?_modify]
  by_cases inside : other < sets.length
  · rw [getElem?_eq_getElem inside]
    by_cases same : idx = other <;> simp [same, inside]
  · rw [getElem?_eq_none (not_lt.mp inside)]
    simp [inside]

theorem lt_of_mem_getD {sets : List (SmallSet Nat capacity)} {idx value : Nat}
    (mem : value ∈ sets.getD idx ∅) : idx < sets.length := by
  by_contra outside
  rw [getD_eq_default _ _ (not_lt.mp outside)] at mem
  exact not_mem_empty mem

section Bounds

variable {table : IncidenceTable capacity} {row column : Nat}

theorem Linked.row_lt (linked : table.Linked row column) : row < table.rows.length :=
  lt_of_mem_getD linked

theorem Mirrored.column_lt (mirrored : table.Mirrored) (linked : table.Linked row column) :
    column < table.columns.length :=
  lt_of_mem_getD ((mirrored row column).mpr linked)

@[simp] theorem length_rows_link : (table.link row column).rows.length = table.rows.length :=
  length_modify _ _ _

@[simp] theorem length_columns_link :
    (table.link row column).columns.length = table.columns.length :=
  length_modify _ _ _

@[simp] theorem length_rows_unlink : (table.unlink row column).rows.length = table.rows.length :=
  length_modify _ _ _

@[simp] theorem length_columns_unlink :
    (table.unlink row column).columns.length = table.columns.length :=
  length_modify _ _ _

@[simp] theorem length_rows_addRow : table.addRow.rows.length = table.rows.length + 1 :=
  length_append

theorem length_foldl_modify (indices : List Nat)
    (change : SmallSet Nat capacity → SmallSet Nat capacity) (sets : List (SmallSet Nat capacity)) :
    (indices.foldl (fun sets idx => sets.modify idx change) sets).length = sets.length := by
  induction indices generalizing sets with
  | nil => rfl
  | cons head tail ih => rw [foldl_cons, ih, length_modify]

@[simp] theorem length_rows_clearRow : (table.clearRow row).rows.length = table.rows.length :=
  length_modify _ _ _

@[simp] theorem length_columns_clearRow :
    (table.clearRow row).columns.length = table.columns.length :=
  length_foldl_modify _ _ _

variable (values : SmallSet Nat capacity) (height width : Nat)

@[simp] theorem length_rows_setColumn :
    (table.setColumn column values).rows.length = table.rows.length := by
  unfold setColumn
  rw [length_foldl_modify, length_foldl_modify]

@[simp] theorem length_columns_setColumn :
    (table.setColumn column values).columns.length = table.columns.length :=
  length_modify _ _ _

@[simp] theorem length_rows_empty :
    (empty height width : IncidenceTable capacity).rows.length = height :=
  length_replicate

@[simp] theorem length_columns_empty :
    (empty height width : IncidenceTable capacity).columns.length = width :=
  length_replicate

end Bounds

/-! ### What the operations do to the relation -/

section Effects

variable {table : IncidenceTable capacity} {row column other node : Nat}

theorem not_mem_replicate (size idx value : Nat) :
    value ∉ (List.replicate size (∅ : SmallSet Nat capacity)).getD idx ∅ := by
  rw [getD_eq_getElem?_getD, getElem?_getD_replicate_default_eq]
  exact not_mem_empty

variable (height : Nat) (indices columns : List Nat) (width value : Nat)
  (sets : List (SmallSet Nat capacity))

theorem not_linked_empty : ¬ (empty height width : IncidenceTable capacity).Linked row column :=
  not_mem_replicate height row column

theorem mirrored_empty : (empty height width : IncidenceTable capacity).Mirrored :=
  fun row column => iff_of_false (not_mem_replicate width column row)
    (not_mem_replicate height row column)

theorem linked_link (bound : row < table.rows.length) :
    (table.link row column).Linked other node ↔
      table.Linked other node ∨ (other = row ∧ node = column) := by
  unfold Linked IncidenceTable.row link
  rw [mem_getD_modify]
  split
  · next same =>
    rw [mem_insert, ← same.1]
    simp
  · next different =>
    refine (or_iff_left fun same => different ⟨same.1.symm, ?_⟩).symm
    rw [same.1]
    exact bound

theorem mem_column_link (bound : column < table.columns.length) :
    other ∈ (table.link row column).column node ↔
      other ∈ table.column node ∨ (other = row ∧ node = column) := by
  unfold IncidenceTable.column link
  rw [mem_getD_modify]
  split
  · next same =>
    rw [mem_insert, ← same.1]
    simp
  · next different =>
    refine (or_iff_left fun same => different ⟨same.2.symm, ?_⟩).symm
    rw [same.2]
    exact bound

theorem Mirrored.link (mirrored : table.Mirrored) (rowBound : row < table.rows.length)
    (columnBound : column < table.columns.length) : (table.link row column).Mirrored := by
  intro other node
  rw [mem_column_link columnBound, linked_link rowBound, mirrored other node]

theorem linked_unlink :
    (table.unlink row column).Linked other node ↔
      table.Linked other node ∧ ¬ (other = row ∧ node = column) := by
  unfold Linked IncidenceTable.row unlink
  rw [mem_getD_modify]
  split
  · next same =>
    rw [mem_erase, ← same.1]
    simp
  · next different =>
    refine (and_iff_left_of_imp fun linked same => different ⟨same.1.symm, ?_⟩).symm
    exact lt_of_mem_getD linked

theorem mem_column_unlink :
    other ∈ (table.unlink row column).column node ↔
      other ∈ table.column node ∧ ¬ (other = row ∧ node = column) := by
  unfold IncidenceTable.column unlink
  rw [mem_getD_modify]
  split
  · next same =>
    rw [mem_erase, ← same.1]
    simp
  · next different =>
    refine (and_iff_left_of_imp fun linked same => different ⟨same.2.symm, ?_⟩).symm
    exact lt_of_mem_getD linked

theorem Mirrored.unlink (mirrored : table.Mirrored) : (table.unlink row column).Mirrored := by
  intro other node
  rw [mem_column_unlink, linked_unlink, mirrored other node]

theorem linked_addRow : table.addRow.Linked other node ↔ table.Linked other node := by
  unfold Linked IncidenceTable.row addRow
  rw [getD_eq_getElem?_getD, getD_eq_getElem?_getD, getElem?_append]
  split
  · exact Iff.rfl
  · next outside =>
    rw [getElem?_eq_none (not_lt.mp outside)]
    rcases Nat.eq_zero_or_pos (other - table.rows.length) with first | later
    · simp [first]
    · rw [getElem?_eq_none (by exact later)]

theorem Mirrored.addRow (mirrored : table.Mirrored) : table.addRow.Mirrored := by
  intro other node
  rw [linked_addRow]
  exact mirrored other node

theorem mem_foldl_erase :
    other ∈ (indices.foldl (fun sets idx => sets.modify idx (·.erase value)) sets).getD
        node ∅ ↔
      other ∈ sets.getD node ∅ ∧ ¬ (other = value ∧ node ∈ indices) := by
  induction indices generalizing sets with
  | nil => simp
  | cons head tail ih =>
    rw [foldl_cons, ih, mem_getD_modify]
    split
    · next same =>
      rw [mem_erase, same.1]
      simp only [mem_cons, true_or, and_true]
      tauto
    · next different =>
      refine and_congr_right fun mem => ?_
      have apart : node ≠ head := fun same => different ⟨same.symm, lt_of_mem_getD mem⟩
      simp only [mem_cons, apart, false_or]

@[simp] theorem row_clearRow_self : (table.clearRow row).row row = ∅ := by
  unfold IncidenceTable.row clearRow
  rw [getD_eq_getElem?_getD, getElem?_modify_eq]
  cases table.rows[row]? <;> rfl

theorem row_clearRow_ne (different : other ≠ row) :
    (table.clearRow row).row other = table.row other := by
  show (table.rows.modify row _).getD other ∅ = table.rows.getD other ∅
  rw [getD_eq_getElem?_getD, getElem?_modify_ne _ _ different.symm, ← getD_eq_getElem?_getD]

theorem linked_clearRow :
    (table.clearRow row).Linked other node ↔ table.Linked other node ∧ other ≠ row := by
  unfold Linked IncidenceTable.row clearRow
  rw [mem_getD_modify]
  split
  · next same => simp [same.1]
  · next different =>
    refine (and_iff_left_of_imp fun linked same => different ⟨same.symm, ?_⟩).symm
    exact lt_of_mem_getD linked

theorem Mirrored.clearRow (mirrored : table.Mirrored) : (table.clearRow row).Mirrored := by
  intro other node
  rw [linked_clearRow, ← mirrored other node]
  unfold IncidenceTable.column IncidenceTable.clearRow
  rw [mem_foldl_erase]
  refine and_congr_right fun mem => not_congr ⟨And.left, fun same => ⟨same, ?_⟩⟩
  rw [← same]
  exact (mirrored other node).mp mem

theorem mem_foldl_insert_sets (bounds : ∀ idx ∈ indices, idx < sets.length) :
    other ∈ (indices.foldl (fun sets idx => sets.modify idx (·.insert value)) sets).getD
        node ∅ ↔
      other ∈ sets.getD node ∅ ∨ (other = value ∧ node ∈ indices) := by
  induction indices generalizing sets with
  | nil => simp
  | cons head tail ih =>
    rw [foldl_cons, ih, mem_getD_modify]
    · split
      · next same =>
        rw [mem_insert, same.1]
        simp only [mem_cons, true_or, and_true]
        tauto
      · next different =>
        have apart : node ≠ head := fun same => different
          ⟨same.symm, same ▸ bounds head (mem_cons_self ..)⟩
        simp only [mem_cons, apart, false_or]
    · intro idx mem
      rw [length_modify]
      exact bounds idx (mem_cons_of_mem _ mem)

theorem linked_setColumn (mirrored : table.Mirrored) (values : SmallSet Nat capacity)
    (bounds : ∀ idx ∈ values, idx < table.rows.length) :
    (table.setColumn column values).Linked other node ↔
      if node = column then other ∈ values else table.Linked other node := by
  unfold Linked IncidenceTable.row setColumn
  rw [mem_foldl_insert_sets, mem_foldl_erase]
  · split
    · next same =>
      rw [same]
      constructor
      · rintro (⟨linked, kept⟩ | ⟨_, mem⟩)
        · exact absurd ⟨rfl, (mirrored other column).mpr linked⟩ kept
        · exact mem
      · exact fun mem => .inr ⟨rfl, mem⟩
    · next different => simp [different]
  · intro idx mem
    rw [length_foldl_modify]
    exact bounds idx mem

theorem Mirrored.setColumn (mirrored : table.Mirrored) {values : SmallSet Nat capacity}
    (bounds : ∀ idx ∈ values, idx < table.rows.length)
    (columnBound : column < table.columns.length) : (table.setColumn column values).Mirrored := by
  intro other node
  rw [linked_setColumn mirrored values bounds, ← mirrored other node]
  show other ∈ (table.columns.modify column _).getD node ∅ ↔ _
  rw [mem_getD_modify]
  by_cases same : node = column
  · simp [same, columnBound]
  · rw [if_neg fun both => same both.1.symm, if_neg same]
    exact Iff.rfl

theorem linked_linkAll (bound : row < table.rows.length) :
    (table.linkAll row columns).Linked other node ↔
      table.Linked other node ∨ (other = row ∧ node ∈ columns) := by
  induction columns generalizing table with
  | nil => simp [linkAll]
  | cons head tail ih =>
    show ((table.link row head).linkAll row tail).Linked other node ↔ _
    rw [ih (by rw [length_rows_link]; exact bound), linked_link bound,
      mem_cons, or_assoc, ← and_or_left]

@[simp] theorem length_rows_linkAll :
    (table.linkAll row columns).rows.length = table.rows.length := by
  induction columns generalizing table with
  | nil => rfl
  | cons head tail ih =>
    show ((table.link row head).linkAll row tail).rows.length = _
    rw [ih, length_rows_link]

@[simp] theorem length_columns_linkAll :
    (table.linkAll row columns).columns.length = table.columns.length := by
  induction columns generalizing table with
  | nil => rfl
  | cons head tail ih =>
    show ((table.link row head).linkAll row tail).columns.length = _
    rw [ih, length_columns_link]

theorem Mirrored.linkAll (mirrored : table.Mirrored) (bound : row < table.rows.length)
    {columns : List Nat} (inside : ∀ column ∈ columns, column < table.columns.length) :
    (table.linkAll row columns).Mirrored := by
  induction columns generalizing table with
  | nil => exact mirrored
  | cons head tail ih =>
    refine ih (mirrored.link bound (inside head mem_cons_self)) ?_ ?_
    · rw [length_rows_link]
      exact bound
    · intro column mem
      rw [length_columns_link]
      exact inside column (mem_cons_of_mem _ mem)

theorem linked_unlinkAll :
    (table.unlinkAll row columns).Linked other node ↔
      table.Linked other node ∧ ¬ (other = row ∧ node ∈ columns) := by
  induction columns generalizing table with
  | nil => simp [unlinkAll]
  | cons head tail ih =>
    show ((table.unlink row head).unlinkAll row tail).Linked other node ↔ _
    rw [ih, linked_unlink, mem_cons, and_assoc, ← not_or, ← and_or_left]

@[simp] theorem length_rows_unlinkAll :
    (table.unlinkAll row columns).rows.length = table.rows.length := by
  induction columns generalizing table with
  | nil => rfl
  | cons head tail ih =>
    show ((table.unlink row head).unlinkAll row tail).rows.length = _
    rw [ih, length_rows_unlink]

@[simp] theorem length_columns_unlinkAll :
    (table.unlinkAll row columns).columns.length = table.columns.length := by
  induction columns generalizing table with
  | nil => rfl
  | cons head tail ih =>
    show ((table.unlink row head).unlinkAll row tail).columns.length = _
    rw [ih, length_columns_unlink]

theorem Mirrored.unlinkAll (mirrored : table.Mirrored) (columns : List Nat) :
    (table.unlinkAll row columns).Mirrored := by
  induction columns generalizing table with
  | nil => exact mirrored
  | cons head tail ih => exact ih mirrored.unlink

end Effects

end IncidenceTable

end NpuPlugin
