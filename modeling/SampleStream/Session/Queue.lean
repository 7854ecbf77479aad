/-!
# Bounded queues

First in, first out, with room for `capacity` items. A queue without capacity takes nothing.
-/

namespace SampleStream

universe u

structure Queue (α : Type u) where
  capacity : Nat
  items : List α
deriving Repr

namespace Queue

variable {α : Type u}

/-- All places of a queue are asked for at once, and never so many bytes. Whether the machine has what is asked for
is another matter. -/
def maxBytes : Nat := 0x8000000000000000

def empty (capacity : Nat) : Queue α :=
  ⟨capacity, []⟩

def isFull (q : Queue α) : Bool :=
  q.capacity ≤ q.items.length

/-- The queue with one more item at its end, if there is room. -/
def push? (q : Queue α) (a : α) : Option (Queue α) :=
  if q.isFull then none else some { q with items := q.items ++ [a] }

def clear (q : Queue α) : Queue α :=
  { q with items := [] }

theorem items_of_push? {q r : Queue α} {a : α} (h : q.push? a = some r) :
    r.items = q.items ++ [a] := by
  unfold push? at h
  split at h
  · simp at h
  · cases h; rfl

theorem length_le_of_push? {q r : Queue α} {a : α} (h : q.push? a = some r) :
    r.items.length ≤ r.capacity := by
  unfold push? at h
  split at h
  · simp at h
  · rename_i hf
    cases h
    simp only [isFull, decide_eq_true_eq, Nat.not_le] at hf
    simp only [List.length_append, List.length_singleton]
    omega

end Queue

end SampleStream
