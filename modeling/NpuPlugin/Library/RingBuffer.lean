/-
This file models a ring buffer over a fixed storage and relates it to the queue it holds. While the
buffer is not pushed when full nor popped when empty, it is a first-in first-out queue. Queues that
are kept by key follow.
-/

import Mathlib.Data.List.Basic
import Mathlib.Data.Nat.ModEq

namespace NpuPlugin

open List Nat

/-- A storage with the indices of the last element put and of the next one to take. -/
structure RingBuffer (Value : Type) where
  storage : List Value
  putInd : Nat
  getInd : Nat
  size : Nat
deriving Repr

namespace RingBuffer

variable {Value : Type}

/-- `reset` of a default buffer: the storage is resized and the indices are cleared. -/
def reset [Inhabited Value] (capacity : Nat) : RingBuffer Value :=
  ⟨List.replicate capacity default, capacity, 0, 0⟩

variable (ring : RingBuffer Value)

/-- The next index, which is the first one after the end of the storage. -/
def wrap (idx : Nat) : Nat := if ring.storage.length ≤ idx + 1 then 0 else idx + 1

def push (value : Value) : RingBuffer Value :=
  { ring with
    size := ring.size + 1
    putInd := ring.wrap ring.putInd
    storage := ring.storage.set (ring.wrap ring.putInd) value }

def pop : RingBuffer Value := { ring with size := ring.size - 1, getInd := ring.wrap ring.getInd }

def front [Inhabited Value] (ring : RingBuffer Value) : Value :=
  ring.storage.getD ring.getInd default

def empty : Bool := ring.size == 0

def full : Bool := ring.size == ring.storage.length

/-- The queue the buffer holds, the next element to take first. -/
def contents [Inhabited Value] (ring : RingBuffer Value) : List Value :=
  (List.range ring.size).map fun idx =>
    ring.storage.getD ((ring.getInd + idx) % ring.storage.length) default

/-- The indices agree with the number of elements. -/
structure Coherent : Prop where
  size_le : ring.size ≤ ring.storage.length
  getInd_lt : 0 < ring.storage.length → ring.getInd < ring.storage.length
  putInd_wrap : 0 < ring.storage.length →
    ring.wrap ring.putInd = (ring.getInd + ring.size) % ring.storage.length

theorem wrap_eq_mod (ring : RingBuffer Value) (idx : Nat) (inside : idx < ring.storage.length) :
    ring.wrap idx = (idx + 1) % ring.storage.length := by
  unfold wrap
  split
  · next last => rw [show idx + 1 = ring.storage.length by omega, mod_self]
  · next before => rw [mod_eq_of_lt (by omega)]

variable {ring : RingBuffer Value} (capacity : Nat)

theorem coherent_reset [Inhabited Value] : Coherent (reset capacity : RingBuffer Value) := by
  refine ⟨zero_le _, fun pos => pos, fun pos => ?_⟩
  simp [reset, wrap]

@[simp] theorem storage_length_reset [Inhabited Value] :
    (reset capacity : RingBuffer Value).storage.length = capacity := length_replicate

@[simp] theorem storage_length_push (ring : RingBuffer Value) (value : Value) :
    (ring.push value).storage.length = ring.storage.length := length_set

@[simp] theorem storage_length_pop (ring : RingBuffer Value) :
    ring.pop.storage.length = ring.storage.length := rfl

theorem contents_length [Inhabited Value] (ring : RingBuffer Value) :
    ring.contents.length = ring.size := by
  rw [contents, length_map, length_range]

section

variable (coherent : Coherent ring)
include coherent

theorem Coherent.push (value : Value) (room : ring.size < ring.storage.length) :
    Coherent (ring.push value) := by
  have pos : 0 < ring.storage.length := by omega
  refine ⟨?_, fun _ => ?_, fun _ => ?_⟩
  · rw [storage_length_push]
    exact room
  · rw [storage_length_push]
    exact coherent.getInd_lt pos
  · have inside : (ring.getInd + ring.size) % ring.storage.length < ring.storage.length :=
      mod_lt _ pos
    have next : (ring.push value).putInd = (ring.getInd + ring.size) % ring.storage.length :=
      coherent.putInd_wrap pos
    rw [next, wrap_eq_mod _ _ (by rw [storage_length_push]; exact inside), storage_length_push,
      mod_add_mod]
    rfl

theorem Coherent.pop (filled : 0 < ring.size) : Coherent ring.pop := by
  have pos : 0 < ring.storage.length := filled.trans_le coherent.size_le
  have next : ring.pop.getInd = (ring.getInd + 1) % ring.storage.length :=
    wrap_eq_mod ring ring.getInd (coherent.getInd_lt pos)
  refine ⟨?_, fun _ => ?_, fun _ => ?_⟩
  · exact (sub_le _ _).trans coherent.size_le
  · rw [next]
    exact mod_lt _ pos
  · have kept : ring.pop.wrap ring.pop.putInd = ring.wrap ring.putInd := rfl
    rw [kept, coherent.putInd_wrap pos, next, storage_length_pop, mod_add_mod]
    rw [show ring.getInd + 1 + ring.pop.size = ring.getInd + ring.size by
      simp only [RingBuffer.pop]; omega]

theorem Coherent.contents_push [Inhabited Value] (value : Value)
    (room : ring.size < ring.storage.length) :
    (ring.push value).contents = ring.contents ++ [value] := by
  have pos : 0 < ring.storage.length := by omega
  have put : (ring.push value).storage =
      ring.storage.set ((ring.getInd + ring.size) % ring.storage.length) value :=
    congrArg (fun idx => ring.storage.set idx value) (coherent.putInd_wrap pos)
  have sizes : (ring.push value).size = ring.size + 1 := rfl
  have start : (ring.push value).getInd = ring.getInd := rfl
  simp only [contents]
  rw [sizes, range_succ, map_append, map_singleton, start, storage_length_push, put]
  have last : (ring.getInd + ring.size) % ring.storage.length < ring.storage.length := mod_lt _ pos
  refine congrArg₂ _ (map_congr_left fun idx mem => ?_) ?_
  · -- The slot written is not one of the slots in use.
    have small : idx < ring.size := mem_range.mp mem
    have other : (ring.getInd + idx) % ring.storage.length ≠
        (ring.getInd + ring.size) % ring.storage.length := by
      intro equal
      have : idx = ring.size :=
        (Nat.ModEq.add_left_cancel' ring.getInd equal).eq_of_lt_of_lt (by omega) room
      omega
    rw [getD_eq_getElem?_getD, getD_eq_getElem?_getD, getElem?_set_ne other.symm]
  · rw [getD_eq_getElem?_getD, getElem?_set_self last, Option.getD_some]

theorem Coherent.contents_cons [Inhabited Value] (filled : 0 < ring.size) :
    ring.contents = ring.front :: ring.pop.contents := by
  have pos : 0 < ring.storage.length := filled.trans_le coherent.size_le
  have next : ring.pop.getInd = (ring.getInd + 1) % ring.storage.length :=
    wrap_eq_mod ring ring.getInd (coherent.getInd_lt pos)
  obtain ⟨rest, sizes⟩ : ∃ rest, ring.size = rest + 1 := ⟨ring.size - 1, by omega⟩
  have fewer : ring.pop.size = rest := by simp only [RingBuffer.pop]; omega
  simp only [contents]
  rw [sizes, range_succ_eq_map, map_cons, map_map, fewer, next,
    storage_length_pop, add_zero, mod_eq_of_lt (coherent.getInd_lt pos)]
  refine congrArg₂ _ rfl (map_congr_left fun idx _ => ?_)
  show ring.storage.getD ((ring.getInd + (idx + 1)) % ring.storage.length) default = _
  rw [mod_add_mod, show ring.getInd + (idx + 1) = ring.getInd + 1 + idx by omega]
  rfl

/-- The front of a buffer that is not empty goes back behind all other elements. -/
theorem Coherent.rotate [Inhabited Value] (filled : 0 < ring.size) :
    Coherent (ring.pop.push ring.front) ∧
      (ring.pop.push ring.front).size = ring.size ∧
      (ring.pop.push ring.front).contents = ring.pop.contents ++ [ring.front] := by
  have fewer : ring.pop.size = ring.size - 1 := rfl
  have room : ring.pop.size < ring.pop.storage.length := by
    rw [storage_length_pop, fewer]
    exact (sub_lt filled one_pos).trans_le coherent.size_le
  refine ⟨(coherent.pop filled).push _ room, ?_, (coherent.pop filled).contents_push _ room⟩
  show ring.pop.size + 1 = ring.size
  omega

end

end RingBuffer

open Function

namespace KeyedQueues

variable {Item Key Value : Type} [DecidableEq Key] (key : Item → Key)

def push (queues : Key → List Value) (key : Key) (value : Value) : Key → List Value :=
  Function.update queues key (queues key ++ [value])

/-- The value that each item takes, none when its queue is empty. -/
def take (queues : Key → List Value) : List Item → List (Option Value)
  | [] => []
  | item :: items =>
    (queues (key item)).head? ::
      take (Function.update queues (key item) (queues (key item)).tail) items

variable (queues : Key → List Value) (items : List Item)

theorem push_self (key : Key) (value : Value) :
    push queues key value key = queues key ++ [value] := update_self ..

theorem push_other {queues : Key → List Value} {key other : Key} (distinct : other ≠ key)
    (value : Value) : push queues key value other = queues other :=
  update_of_ne distinct ..

/-- Some items push a value, and the queue of a key gets those of the key in their order. -/
theorem foldl_push (pushes : Item → Bool) (value : Item → Value) (items : List Item)
    (queues : Key → List Value) (target : Key) :
    items.foldl (fun queues item =>
        if pushes item then push queues (key item) (value item) else queues) queues target =
      queues target ++
        (items.filter fun item => decide (key item = target) && pushes item).map value := by
  induction items generalizing queues with
  | nil => simp
  | cons item items ih =>
    rw [foldl_cons, ih]
    by_cases pushed : pushes item = true
    · by_cases same : key item = target
      · subst same
        simp [pushed, push_self]
      · have distinct : target ≠ key item := Ne.symm same
        simp [pushed, same, push_other distinct]
    · simp [pushed]

theorem length_take : (take key queues items).length = items.length := by
  induction items generalizing queues with
  | nil => rfl
  | cons item items ih => simp only [take, length_cons, ih]

/-- An item takes the value whose place in the queue is the number of earlier items with its key. -/
theorem getElem?_take (place : Nat) :
    (take key queues items)[place]? = items[place]?.map fun item =>
      (queues (key item))[(items.take place).countP fun other => key other = key item]? := by
  induction items generalizing queues place with
  | nil => simp [take]
  | cons first items ih =>
    cases place with
    | zero => simp [take, head?_eq_getElem?]
    | succ place =>
      simp only [take, getElem?_cons_succ, ih, take_succ_cons]
      cases found : items[place]? with
      | none => rfl
      | some item =>
        simp only [Option.map_some, Option.some.injEq, countP_cons]
        by_cases same : key item = key first
        · simp [same]
        · have distinct : ¬ key first = key item := Ne.symm same
          simp [same, distinct]

end KeyedQueues

end NpuPlugin
