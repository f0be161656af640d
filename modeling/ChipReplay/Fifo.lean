/-!
# First-in first-out queues

A queue keeps its oldest elements in one list and its newest, reversed, in another, so that
both ends are cheap. `toList` is the view every statement is made about: each operation has one
lemma that says what it does to that list.
-/

namespace ChipReplay

/-- A queue of `α`. -/
structure Fifo (α : Type) where
  /-- The oldest elements, oldest first. -/
  front : List α := []
  /-- The newest elements, newest first. -/
  back : List α := []

namespace Fifo

variable {α : Type}

/-- The queue with no element. -/
def empty : Fifo α := {}

instance : Inhabited (Fifo α) := ⟨empty⟩

/-- All elements, oldest first. -/
def toList (q : Fifo α) : List α := q.front ++ q.back.reverse

/-- The number of elements. -/
def size (q : Fifo α) : Nat := q.front.length + q.back.length

/-- Whether there is no element. -/
def isEmpty (q : Fifo α) : Bool := q.front.isEmpty && q.back.isEmpty

/-- `a` joins as the newest element. -/
def push (q : Fifo α) (a : α) : Fifo α := { q with back := a :: q.back }

/-- The elements of `as` join one after the other. -/
def pushAll (q : Fifo α) (as : List α) : Fifo α := as.foldl push q

/-- The oldest element and the queue without it. -/
def pop? (q : Fifo α) : Option (α × Fifo α) :=
  match q.front with
  | a :: front => some (a, { q with front })
  | [] =>
    match q.back.reverse with
    | a :: front => some (a, { front, back := [] })
    | [] => none

/-- `a` joins as the oldest element. -/
def pushFront (q : Fifo α) (a : α) : Fifo α := { q with front := a :: q.front }

@[simp] theorem toList_empty : (empty : Fifo α).toList = [] := rfl

@[simp] theorem toList_push (q : Fifo α) (a : α) : (q.push a).toList = q.toList ++ [a] := by
  simp [toList, push]

@[simp] theorem toList_pushAll (q : Fifo α) (as : List α) :
    (q.pushAll as).toList = q.toList ++ as := by
  induction as generalizing q with
  | nil => simp [pushAll]
  | cons a as ih => simpa [pushAll] using ih (q.push a)

@[simp] theorem toList_pushFront (q : Fifo α) (a : α) :
    (q.pushFront a).toList = a :: q.toList := by
  simp [toList, pushFront]

theorem size_eq_length (q : Fifo α) : q.size = q.toList.length := by
  simp [size, toList]

theorem isEmpty_iff (q : Fifo α) : q.isEmpty = true ↔ q.toList = [] := by
  simp [isEmpty, toList, List.isEmpty_iff]

theorem pop?_eq_none_iff (q : Fifo α) : q.pop? = none ↔ q.toList = [] := by
  unfold pop? toList
  split
  · simp_all
  · rename_i hf
    split <;> simp_all

theorem toList_of_pop? {q rest : Fifo α} {a : α} (h : q.pop? = some (a, rest)) :
    q.toList = a :: rest.toList := by
  unfold pop? at h
  split at h
  · rename_i hf
    simp only [Option.some.injEq, Prod.mk.injEq] at h
    obtain ⟨rfl, rfl⟩ := h
    simp [toList, hf]
  · rename_i hf
    split at h
    · rename_i hb
      simp only [Option.some.injEq, Prod.mk.injEq] at h
      obtain ⟨rfl, rfl⟩ := h
      simp [toList, hf, hb]
    · simp at h

theorem size_lt_of_pop? {q rest : Fifo α} {a : α} (h : q.pop? = some (a, rest)) :
    rest.size < q.size := by
  simp [size_eq_length, toList_of_pop? h]

end Fifo
end ChipReplay
