/-!
# Fifo — first in, first out

A queue of known size, its newer half kept in reverse.  `toList` is the view; each operation has its equation on it.
-/
namespace UsbRecorder

/-- Items waiting in line. -/
structure Fifo (α : Type) where
  /-- the older items, oldest first -/
  front : List α
  /-- the newer items, newest first -/
  back : List α
  size : Nat
  size_eq : size = front.length + back.length
  back_nil : front = [] → back = []

namespace Fifo
variable {α : Type}

/-- The items, oldest first. -/
def toList (q : Fifo α) : List α := q.front ++ q.back.reverse

def empty : Fifo α := ⟨[], [], 0, rfl, fun _ => rfl⟩

instance : Inhabited (Fifo α) := ⟨empty⟩

def single (x : α) : Fifo α := ⟨[x], [], 1, rfl, fun _ => rfl⟩

def isEmpty (q : Fifo α) : Bool := q.front.isEmpty

def push (q : Fifo α) (x : α) : Fifo α :=
  match hf : q.front with
  | [] => single x
  | f :: fs => ⟨f :: fs, x :: q.back, q.size + 1, by have := q.size_eq; simp_all; omega, by simp⟩

def head? (q : Fifo α) : Option α := q.front.head?

def tail (q : Fifo α) : Fifo α :=
  match hf : q.front with
  | [] => empty
  | [_] => ⟨q.back.reverse, [], q.size - 1, by have := q.size_eq; simp_all, fun _ => rfl⟩
  | _ :: f :: fs => ⟨f :: fs, q.back, q.size - 1, by have := q.size_eq; simp_all +arith, by simp⟩

@[simp] theorem toList_empty : (empty : Fifo α).toList = [] := rfl

@[simp] theorem toList_single (x : α) : (single x).toList = [x] := rfl

@[simp] theorem length_toList (q : Fifo α) : q.toList.length = q.size := by
  simp [toList, q.size_eq]

@[simp] theorem toList_push (q : Fifo α) (x : α) : (q.push x).toList = q.toList ++ [x] := by
  unfold push
  split
  · rename_i h
    simp [toList, single, h, q.back_nil h]
  · rename_i h
    simp [toList, h]

@[simp] theorem head?_eq (q : Fifo α) : q.head? = q.toList.head? := by
  unfold head? toList
  cases h : q.front with
  | nil => simp [q.back_nil h]
  | cons f fs => simp

@[simp] theorem toList_tail (q : Fifo α) : q.tail.toList = q.toList.tail := by
  unfold tail toList
  split <;> rename_i h
  · simp [empty, h, q.back_nil h]
  · simp [h]
  · simp [h]

@[simp] theorem size_push (q : Fifo α) (x : α) : (q.push x).size = q.size + 1 := by
  rw [← length_toList, toList_push, List.length_append, length_toList]
  rfl

@[simp] theorem size_tail (q : Fifo α) : q.tail.size = q.size - 1 := by
  rw [← length_toList, toList_tail, List.length_tail, length_toList]

theorem isEmpty_iff (q : Fifo α) : q.isEmpty = true ↔ q.toList = [] := by
  unfold isEmpty toList
  cases h : q.front with
  | nil => simp [q.back_nil h]
  | cons f fs => simp

end Fifo
end UsbRecorder
