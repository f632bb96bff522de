/-!
# Queues

Values in the order in which they came in. Adding a value at the end and dropping the first one take
constant time on average: the later values are kept the other way round, and are turned once they
are as many as the earlier ones.

Main statements: `toList_push`, `toList_dropFirst` and `toList_filter` say what the values are after
a change, and `foldl_eq` that a queue is folded like the list of its values.
-/

namespace Datacenter

structure Queue (α : Type) where
  /-- The earlier values, the first one first. -/
  early : List α
  earlySize : Nat
  /-- The later values, the last one first. -/
  late : List α
  lateSize : Nat
  early_length : early.length = earlySize
  late_length : late.length = lateSize

namespace Queue

variable {α β : Type}

def empty : Queue α := ⟨[], 0, [], 0, rfl, rfl⟩

def toList (q : Queue α) : List α := q.early ++ q.late.reverse

def size (q : Queue α) : Nat := q.earlySize + q.lateSize

/-- The values of a list, in their order. -/
def ofList (xs : List α) : Queue α := ⟨xs, xs.length, [], 0, rfl, rfl⟩

/-- Adds a value at the end. -/
def push (q : Queue α) (x : α) : Queue α :=
  if q.lateSize < q.earlySize then
    { q with
      late := x :: q.late, lateSize := q.lateSize + 1
      late_length := congrArg (· + 1) q.late_length }
  else
    ⟨q.early ++ (x :: q.late).reverse, q.earlySize + (q.lateSize + 1), [], 0,
      by simp [q.early_length, q.late_length], rfl⟩

/-- Drops the first value, if there is one. -/
def dropFirst (q : Queue α) : Queue α :=
  match h : q.early with
  | [] =>
    ⟨q.late.reverse.tail, q.lateSize - 1, [], 0, by simp [q.late_length], rfl⟩
  | _ :: rest =>
    { q with
      early := rest, earlySize := q.earlySize - 1
      early_length := by simp [← q.early_length, h] }

/-- Keeps the values that pass the test. -/
def filter (p : α → Bool) (q : Queue α) : Queue α := ofList (q.toList.filter p)

/-- Goes through the values from the first one on. -/
@[inline] def foldl (f : β → α → β) (start : β) (q : Queue α) : β :=
  q.late.reverse.foldl f (q.early.foldl f start)

/-! ### The list of the values -/

@[simp] theorem toList_empty : (empty : Queue α).toList = [] := rfl

theorem size_eq_length (q : Queue α) : q.size = q.toList.length := by
  simp [size, toList, q.early_length, q.late_length]

@[simp] theorem toList_push (q : Queue α) (x : α) : (q.push x).toList = q.toList ++ [x] := by
  rw [push]
  split <;> simp [toList]

@[simp] theorem toList_dropFirst (q : Queue α) : q.dropFirst.toList = q.toList.tail := by
  rw [dropFirst]
  split <;> simp [toList, *]

@[simp] theorem toList_filter (p : α → Bool) (q : Queue α) :
    (q.filter p).toList = q.toList.filter p := by
  simp [filter, ofList, toList]

theorem foldl_eq (f : β → α → β) (start : β) (q : Queue α) :
    q.foldl f start = q.toList.foldl f start := by
  rw [foldl, toList, List.foldl_append]

end Queue

end Datacenter
