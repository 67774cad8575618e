/-
This file is about buffers of elements of one size, and what a buffer holds after elements of
another one were copied to it. Copies to different places can be made in any order.
-/

import Mathlib.Data.List.Induction
import Mathlib.Data.List.Nodup

namespace NpuPlugin.Copies

open List Nat

variable {Byte : Type*} {source buffer after : List Byte} {size : Nat} {copies : List (Nat × Nat)}

/-- Some bytes are copied from a place to another one, when both are inside of the buffers. -/
def copyBytes (source : List Byte) (first count : Nat) (buffer : List Byte) (target : Nat) :
    Option (List Byte) :=
  if first + count ≤ source.length ∧ target + count ≤ buffer.length then
    some (buffer.take target ++ ((source.drop first).take count ++ buffer.drop (target + count)))
  else none

/-- Each copy is the number of the place and that of the element. -/
def copyElements (size : Nat) (source : List Byte) (copies : List (Nat × Nat))
    (buffer : List Byte) : Option (List Byte) :=
  copies.foldlM (fun buffer copy => copyBytes source (copy.2 * size) size buffer (copy.1 * size))
    buffer

variable {first count target place offset : Nat}

theorem copyBytes_eq_some :
    copyBytes source first count buffer target = some after ↔
      first + count ≤ source.length ∧ target + count ≤ buffer.length ∧
        after = buffer.take target ++
          ((source.drop first).take count ++ buffer.drop (target + count)) := by
  unfold copyBytes
  split
  · rename_i inside
    rw [Option.some.injEq, eq_comm]
    exact ⟨fun same => ⟨inside.1, inside.2, same⟩, fun all => all.2.2⟩
  · rename_i outside
    exact ⟨nofun, fun all => absurd ⟨all.1, all.2.1⟩ outside⟩

section

variable (copied : copyBytes source first count buffer target = some after)
include copied

theorem length_copyBytes : after.length = buffer.length := by
  obtain ⟨inside, targetInside, rfl⟩ := copyBytes_eq_some.mp copied
  simp only [length_append, length_take, length_drop]
  omega

theorem getElem?_copyBytes :
    after[place]? = if target ≤ place ∧ place < target + count then
      source[first + (place - target)]? else buffer[place]? := by
  obtain ⟨inside, targetInside, rfl⟩ := copyBytes_eq_some.mp copied
  have taken : (buffer.take target).length = target := by
    rw [length_take]
    omega
  have middle : ((source.drop first).take count).length = count := by
    rw [length_take, length_drop]
    omega
  by_cases before : place < target
  · rw [if_neg (by omega), getElem?_append_left (by omega), getElem?_take_of_lt before]
  · rw [getElem?_append_right (by omega), taken]
    by_cases within : place < target + count
    · rw [if_pos ⟨Nat.le_of_not_lt before, within⟩, getElem?_append_left (by omega),
        getElem?_take_of_lt (by omega), getElem?_drop]
    · rw [if_neg (by omega), getElem?_append_right (by omega), middle, getElem?_drop]
      congr 1
      omega

end

theorem element_iff {one other : Nat} (below : offset < size) :
    one * size ≤ other * size + offset ∧ other * size + offset < one * size + size ↔
      one = other := by
  constructor
  · rintro ⟨lower, upper⟩
    have first : one * size < (other + 1) * size := by rw [succ_mul]; omega
    have second : other * size < (one + 1) * size := by rw [succ_mul]; omega
    exact Nat.le_antisymm (Nat.lt_succ_iff.mp (Nat.lt_of_mul_lt_mul_right first))
      (Nat.lt_succ_iff.mp (Nat.lt_of_mul_lt_mul_right second))
  · rintro rfl
    omega

/-- Copies that stay inside of the buffers. -/
def Fits (size : Nat) (source buffer : List Byte) (copies : List (Nat × Nat)) : Prop :=
  ∀ copy ∈ copies, copy.2 * size + size ≤ source.length ∧ copy.1 * size + size ≤ buffer.length

/-- What an element of the buffer is: one that was copied there, or what it was. -/
def Holds (size : Nat) (source buffer : List Byte) (copies : List (Nat × Nat)) (after : List Byte) :
    Prop :=
  after.length = buffer.length ∧ ∀ place offset, offset < size →
    (∃ first, (place, first) ∈ copies ∧
      after[place * size + offset]? = source[first * size + offset]?) ∨
    (∀ first, (place, first) ∉ copies) ∧
      after[place * size + offset]? = buffer[place * size + offset]?

theorem copyElements_append (first second : List (Nat × Nat)) :
    copyElements size source (first ++ second) buffer =
      (copyElements size source first buffer).bind (copyElements size source second) :=
  foldlM_append

theorem copyElements_append_singleton {copy : Nat × Nat} :
    copyElements size source (copies ++ [copy]) buffer = some after ↔
      ∃ middle, copyElements size source copies buffer = some middle ∧
        copyBytes source (copy.2 * size) size middle (copy.1 * size) = some after := by
  rw [copyElements_append, Option.bind_eq_some_iff]
  refine exists_congr fun middle => and_congr_right fun _ => ?_
  show Option.bind (copyBytes source _ size middle _) some = _ ↔ _
  rw [Option.bind_fun_some]

theorem copyElements_holds (copied : copyElements size source copies buffer = some after) :
    Holds size source buffer copies after := by
  induction copies using reverseRecOn generalizing after with
  | nil =>
    obtain rfl := Option.some.inj copied
    exact ⟨rfl, fun _ _ _ => .inr ⟨fun _ => not_mem_nil, rfl⟩⟩
  | append_singleton copies copy ih =>
    obtain ⟨middle, earlier, last⟩ := copyElements_append_singleton.mp copied
    obtain ⟨sameLength, holds⟩ := ih earlier
    refine ⟨(length_copyBytes last).trans sameLength, fun place offset below => ?_⟩
    rw [getElem?_copyBytes last]
    by_cases isThis : copy.1 = place
    · rw [if_pos ((element_iff below).mpr isThis)]
      refine .inl ⟨copy.2, mem_append_right _ ?_, ?_⟩
      · rw [← isThis]
        exact mem_cons_self
      · rw [isThis]
        congr 1
        omega
    · rw [if_neg fun here => isThis ((element_iff below).mp here)]
      rcases holds place offset below with ⟨first, mem, same⟩ | ⟨none, same⟩
      · exact .inl ⟨first, mem_append_left _ mem, same⟩
      · refine .inr ⟨fun first mem => ?_, same⟩
        rcases mem_append.mp mem with before | isLast
        · exact none first before
        · exact isThis (congrArg Prod.fst (mem_singleton.mp isLast)).symm

theorem exists_copyElements (fits : Fits size source buffer copies) :
    ∃ after, copyElements size source copies buffer = some after := by
  induction copies using reverseRecOn with
  | nil => exact ⟨buffer, rfl⟩
  | append_singleton copies copy ih =>
    obtain ⟨middle, earlier⟩ := ih (forall_mem_append.mp fits).1
    obtain ⟨inside, targetInside⟩ := fits copy (mem_append_right _ mem_cons_self)
    exact ⟨_, copyElements_append_singleton.mpr ⟨middle, earlier, copyBytes_eq_some.mpr
      ⟨inside, (copyElements_holds earlier).1 ▸ targetInside, rfl⟩⟩⟩

theorem eq_of_elements {other : List Byte} (length : after.length = count * size)
    (otherLength : other.length = count * size) (same : ∀ place < count, ∀ offset < size,
      after[place * size + offset]? = other[place * size + offset]?) : after = other := by
  refine ext_getElem? fun place => ?_
  by_cases inside : place < count * size
  · have pos : 0 < size := Nat.pos_of_ne_zero fun zero => by
      rw [zero, Nat.mul_zero] at inside
      exact Nat.not_lt_zero _ inside
    have split := Nat.div_add_mod place size
    rw [Nat.mul_comm] at split
    rw [← split]
    exact same (place / size) ((Nat.div_lt_iff_lt_mul pos).mpr inside) (place % size)
      (Nat.mod_lt _ pos)
  · rw [getElem?_eq_none (by omega), getElem?_eq_none (by omega)]

theorem Holds.copied (holds : Holds size source buffer copies after)
    (distinct : (copies.map Prod.fst).Nodup) (mem : (place, first) ∈ copies)
    (below : offset < size) : after[place * size + offset]? = source[first * size + offset]? := by
  rcases holds.2 place offset below with ⟨other, otherMember, same⟩ | ⟨none, -⟩
  · have equal := inj_on_of_nodup_map distinct mem otherMember rfl
    rw [same, (Prod.mk.inj equal).2]
  · exact absurd mem (none first)

/-- Copies to different places can be made in any order. -/
theorem copyElements_perm {others : List (Nat × Nat)} (same : copies.Perm others)
    (distinct : (copies.map Prod.fst).Nodup) (fits : Fits size source buffer copies)
    (bufferLength : buffer.length = count * size) :
    copyElements size source copies buffer = copyElements size source others buffer := by
  have otherDistinct : (others.map Prod.fst).Nodup := (same.map _).nodup_iff.mp distinct
  obtain ⟨after, copied⟩ := exists_copyElements fits
  have otherFits : Fits size source buffer others := fun copy mem =>
    fits copy (same.mem_iff.mpr mem)
  obtain ⟨other, otherCopied⟩ := exists_copyElements otherFits
  have holds := copyElements_holds copied
  have otherHolds := copyElements_holds otherCopied
  rw [copied, otherCopied]
  refine congrArg some (eq_of_elements (holds.1.trans bufferLength)
    (otherHolds.1.trans bufferLength) fun place _ offset below => ?_)
  rcases holds.2 place offset below with ⟨first, mem, equal⟩ | ⟨none, equal⟩
  · rw [equal, otherHolds.copied otherDistinct (same.mem_iff.mp mem) below]
  · rcases otherHolds.2 place offset below with ⟨first, mem, -⟩ | ⟨-, otherEqual⟩
    · exact absurd (same.mem_iff.mpr mem) (none first)
    · rw [equal, otherEqual]

/-! ### Copies by two numberings -/

section

variable {Index : Type*} {all : List Index} {origin place : Index → Nat} {count : Nat}

/-- Elements that are all copied to different places fit. -/
theorem fits_map (originLess : ∀ index ∈ all, origin index < count)
    (placeLess : ∀ index ∈ all, place index < count) (sourceLength : source.length = count * size)
    (bufferLength : buffer.length = count * size) :
    Fits size source buffer (all.map fun index => (place index, origin index)) := by
  rintro copy mem
  obtain ⟨index, inside, rfl⟩ := mem_map.mp mem
  rw [sourceLength, bufferLength, ← succ_mul, ← succ_mul]
  exact ⟨mul_le_mul_right _ (originLess index inside), mul_le_mul_right _ (placeLess index inside)⟩

/-- Copies to other places give the same for each source only when the places are the same. -/
theorem copyElements_eq_iff {other : Index → Nat} {one two : Byte} (different : one ≠ two)
    (pos : 0 < size) (distinct : (all.map place).Nodup)
    (originDistinct : (all.map origin).Nodup) (originLess : ∀ index ∈ all, origin index < count)
    (placeLess : ∀ index ∈ all, place index < count) :
    (∀ source : List Byte, source.length = count * size → ∀ memory : Nat → Byte,
      copyElements size source (all.map fun index => (other index, origin index))
        ((List.range (count * size)).map memory) =
      copyElements size source (all.map fun index => (place index, origin index))
        ((List.range (count * size)).map memory)) ↔
      ∀ index ∈ all, other index = place index := by
  constructor
  · intro same index mem
    -- Only this element has the first byte, and the buffer holds the second one everywhere.
    let source := (range (count * size)).map fun byte =>
      if byte / size = origin index then one else two
    have sourceAt : ∀ element < count, source[element * size + 0]? =
        some (if element = origin index then one else two) := by
      intro element less
      have inside : element * size + 0 < count * size := by
        exact Nat.mul_lt_mul_of_pos_right less pos
      rw [getElem?_map, getElem?_range inside, Nat.add_zero, Option.map_some,
        Nat.mul_div_cancel _ pos]
    have sourceLength : source.length = count * size := by simp [source]
    have both := same source sourceLength fun _ => two
    have fits : Fits size source ((range (count * size)).map fun _ => two)
        (all.map fun index => (place index, origin index)) :=
      fits_map originLess placeLess sourceLength (by simp)
    obtain ⟨after, copied⟩ := exists_copyElements fits
    rw [copied] at both
    have here : after[place index * size + 0]? = some one := by
      rw [(copyElements_holds copied).copied (by rwa [map_map])
        (mem_map.mpr ⟨index, mem, rfl⟩) pos, sourceAt _ (originLess index mem),
        if_pos rfl]
    rcases (copyElements_holds both).2 (place index) 0 pos with
      ⟨first, isCopy, equal⟩ | ⟨-, equal⟩
    · obtain ⟨index', member', isPair⟩ := mem_map.mp isCopy
      obtain ⟨isPlace, rfl⟩ := Prod.mk.inj isPair
      rw [here, sourceAt _ (originLess index' member'), Option.some.injEq] at equal
      have isOrigin : origin index' = origin index := by
        by_contra isOther
        rw [if_neg isOther] at equal
        exact different equal
      rw [inj_on_of_nodup_map originDistinct member' mem isOrigin] at isPlace
      exact isPlace
    · rw [here, getElem?_map] at equal
      cases read : (range (count * size))[place index * size + 0]? with
      | none => rw [read] at equal; cases equal
      | some byte =>
        rw [read] at equal
        exact absurd (Option.some.inj equal) different
  · intro same source _ memory
    rw [map_congr_left fun index mem => by rw [same index mem]]

end

/-! ### Repeated elements -/

section

variable {value : List Byte} {count : Nat}

theorem length_flatten_replicate :
    (List.replicate count value).flatten.length = count * value.length := by
  rw [length_flatten, map_replicate, sum_replicate_nat]

theorem getElem?_flatten_replicate (less : place < count * value.length) :
    (List.replicate count value).flatten[place]? = value[place % value.length]? := by
  induction count generalizing place with
  | zero => exact absurd less (by simp)
  | succ count ih =>
    rw [replicate_succ, flatten_cons]
    rcases Nat.lt_or_ge place value.length with inside | behind
    · rw [getElem?_append_left inside, mod_eq_of_lt inside]
    · rw [getElem?_append_right behind, mod_eq_sub_mod behind]
      refine ih ?_
      rw [succ_mul] at less
      omega

theorem take_drop_flatten_replicate (inside : first < count) :
    ((List.replicate count value).flatten.drop (first * value.length)).take value.length =
      value := by
  have split : count = first + (count - first - 1 + 1) := by omega
  have before : (replicate first value).flatten.length = first * value.length :=
    length_flatten_replicate
  rw [split, replicate_add, flatten_append, ← before, drop_left,
    replicate_succ, flatten_cons, take_left]

theorem copyElements_repeated (inside : ∀ copy ∈ copies, copy.2 < count) :
    copyElements value.length (List.replicate count value).flatten copies buffer =
      copyElements value.length value (copies.map fun copy => (copy.1, 0)) buffer := by
  have each : ∀ copy ∈ copies, ∀ buffer : List Byte,
      copyBytes (replicate count value).flatten (copy.2 * value.length) value.length buffer
        (copy.1 * value.length) =
      copyBytes value (0 * value.length) value.length buffer (copy.1 * value.length) := by
    intro copy mem buffer
    have less := inside copy mem
    have room : copy.2 * value.length + value.length ≤ count * value.length := by
      rw [← Nat.succ_mul]
      exact Nat.mul_le_mul_right _ less
    unfold copyBytes
    simp only [take_drop_flatten_replicate less, length_flatten_replicate, room, Nat.zero_mul,
      Nat.zero_add, Nat.le_refl, drop_zero, take_length]
  unfold copyElements
  rw [foldlM_map]
  induction copies generalizing buffer with
  | nil => rfl
  | cons copy copies ih =>
    rw [foldlM_cons, foldlM_cons, each copy mem_cons_self]
    refine congrArg _ (funext fun middle => ?_)
    exact ih (forall_mem_cons.mp inside).2
      (forall_mem_cons.mp each).2

/-- A run of elements is copied like one element after the other. -/
theorem copyBytes_eq_copyElements (sourceInside : count * size ≤ source.length)
    (inside : (first + count) * size ≤ buffer.length) :
    copyBytes source 0 (count * size) buffer (first * size) =
      copyElements size source ((List.range count).map fun element => (first + element, element))
        buffer := by
  induction count with
  | zero =>
    rw [Nat.add_zero] at inside
    simp [copyElements, copyBytes, inside]
  | succ count ih =>
    rw [Nat.succ_mul] at sourceInside
    rw [← Nat.add_assoc, Nat.succ_mul] at inside
    have all : copyBytes source 0 ((count + 1) * size) buffer (first * size) = some _ :=
      copyBytes_eq_some.mpr ⟨by rw [Nat.succ_mul]; omega,
        by rw [Nat.succ_mul, ← Nat.add_assoc, ← Nat.add_mul]; exact inside, rfl⟩
    have most : copyBytes source 0 (count * size) buffer (first * size) = some _ :=
      copyBytes_eq_some.mpr ⟨by omega, by rw [← Nat.add_mul]; omega, rfl⟩
    have last : copyBytes source (count * size) size _ ((first + count) * size) = some _ :=
      copyBytes_eq_some.mpr ⟨sourceInside, (length_copyBytes most).symm ▸ inside, rfl⟩
    have earlier := ih (by omega) (by omega)
    rw [range_succ, map_append, map_singleton]
    refine Eq.trans ?_ (copyElements_append_singleton.mpr ⟨_, earlier.symm.trans most, last⟩).symm
    rw [all]
    refine congrArg some (ext_getElem? fun place => ?_)
    rw [getElem?_copyBytes all, getElem?_copyBytes last, getElem?_copyBytes most]
    rw [Nat.succ_mul, Nat.add_mul]
    split
    · split
      · congr 1
        omega
      · rw [if_pos (by omega)]
    · rw [if_neg (by omega), if_neg (by omega)]

end

/-! ### Buffers that are written everywhere -/

section

variable {Index : Type*} {all : List Index} {write : Index → Option (Nat × List Byte)}

theorem length_foldlM_writes (written : all.foldlM (fun buffer index =>
    (write index).bind fun written =>
      copyBytes written.2 0 written.2.length buffer written.1) buffer = some after) :
    after.length = buffer.length := by
  induction all generalizing buffer with
  | nil => rw [← Option.some.inj written]
  | cons index all ih =>
    obtain ⟨middle, first, rest⟩ := Option.bind_eq_some_iff.mp written
    obtain ⟨value, -, copied⟩ := Option.bind_eq_some_iff.mp first
    rw [ih rest, length_copyBytes copied]

/-- What the buffers held before does not matter where they are written. -/
theorem foldlM_writes_congr {one other : List Byte} (length : one.length = other.length)
    (same : ∀ place, (∀ index ∈ all, ∀ target value, write index = some (target, value) →
      ¬ (target ≤ place ∧ place < target + value.length)) → one[place]? = other[place]?) :
    all.foldlM (fun buffer index => (write index).bind fun written =>
      copyBytes written.2 0 written.2.length buffer written.1) one =
    all.foldlM (fun buffer index => (write index).bind fun written =>
      copyBytes written.2 0 written.2.length buffer written.1) other := by
  induction all generalizing one other with
  | nil => exact congrArg some (ext_getElem? fun place => same place (by simp))
  | cons index all ih =>
    rw [foldlM_cons, foldlM_cons]
    cases isWrite : write index with
    | none => rfl
    | some pair =>
      obtain ⟨target, value⟩ := pair
      rw [Option.bind_some, Option.bind_some]
      by_cases inside : target + value.length ≤ one.length
      · have copied := copyBytes_eq_some.mpr
          ⟨Nat.le_of_eq (Nat.zero_add _), inside, rfl⟩
        have otherCopied := copyBytes_eq_some.mpr
          ⟨Nat.le_of_eq (Nat.zero_add _), length ▸ inside, rfl⟩
        rw [copied, otherCopied]
        refine ih ?_ fun place none => ?_
        · rw [length_copyBytes copied, length_copyBytes otherCopied, length]
        · rw [getElem?_copyBytes copied, getElem?_copyBytes otherCopied]
          split
          · rfl
          · rename_i outside
            refine same place fun step mem first written isThis => ?_
            rcases mem_cons.mp mem with rfl | later
            · rw [isWrite] at isThis
              obtain ⟨rfl, rfl⟩ := Prod.mk.inj (Option.some.inj isThis)
              exact outside
            · exact none step later first written isThis
      · have stopped : ∀ buffer : List Byte, buffer.length = one.length →
            copyBytes value 0 value.length buffer target = none := fun buffer isLength =>
          if_neg fun both => inside (isLength ▸ both.2)
        rw [stopped one rfl, stopped other length.symm]

end

end NpuPlugin.Copies
