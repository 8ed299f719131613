import Mathlib.Data.List.Basic

/-!
# A bounded byte ring with one retrieved item at a time

`Ring α size` is a first-in first-out buffer of at most `size` elements. A sender gives all its
elements or none (`Ring.send`); a receiver gets a non-empty prefix, whose room is free again only
when the item is given back, and while an item is out no other can be taken (`Ring.receive`,
`Ring.giveBack`). The capacity is a field, so no operation can overrun it.
-/

namespace Lib

/-- The elements that wait, in order, and the item that is taken and not given back. -/
structure Ring (α : Type) (size : Nat) where
  queue : List α
  held : Option (List α)
  fits : queue.length + (held.getD []).length ≤ size

namespace Ring

variable {α : Type} {size : Nat}

/-- The empty ring. -/
def empty : Ring α size := ⟨[], none, Nat.zero_le _⟩

/-- The elements that take room. -/
def used (r : Ring α size) : Nat := r.queue.length + (r.held.getD []).length

/-- All of `xs`, or `none` if they do not fit. -/
def send (xs : List α) (r : Ring α size) : Option (Ring α size) :=
  if h : r.used + xs.length ≤ size then
    some ⟨r.queue ++ xs, r.held, by simp only [used] at h; simp only [List.length_append]; omega⟩
  else none

/-- The first elements, at most `n + 1` of them; `none` if there are none or an item is out. -/
def receive (n : Nat) (r : Ring α size) : Option (List α × Ring α size) :=
  if r.held = none ∧ r.queue ≠ [] then
    some (r.queue.take (n + 1), ⟨r.queue.drop (n + 1), some (r.queue.take (n + 1)), by
      have := r.fits
      simp only [List.length_drop, Option.getD_some, List.length_take]
      omega⟩)
  else none

/-- The retrieved item is given back: its room is free. -/
def giveBack (r : Ring α size) : Ring α size :=
  ⟨r.queue, none, by have := r.fits; simp only [Option.getD_none, List.length_nil]; omega⟩

@[simp] theorem empty_queue : (empty : Ring α size).queue = [] := rfl

@[simp] theorem empty_held : (empty : Ring α size).held = none := rfl

@[simp] theorem giveBack_queue (r : Ring α size) : r.giveBack.queue = r.queue := rfl

@[simp] theorem giveBack_held (r : Ring α size) : r.giveBack.held = none := rfl

variable {r r' : Ring α size} {xs : List α} {n : Nat}

/-- What a send does. -/
theorem send_eq_some (h : r.send xs = some r') :
    r.used + xs.length ≤ size ∧ r'.queue = r.queue ++ xs ∧ r'.held = r.held := by
  unfold send at h
  split at h
  · next hr => cases h; exact ⟨hr, rfl, rfl⟩
  · cases h

theorem send_isSome : (r.send xs).isSome ↔ r.used + xs.length ≤ size := by
  unfold send
  split <;> simp_all

theorem send_eq_none (h : r.send xs = none) : size < r.used + xs.length := by
  by_contra hlt
  have := send_isSome.mpr (Nat.le_of_not_lt hlt)
  simp [h] at this

/-- What a receive does: it splits the queue, and the item is out. -/
theorem receive_eq_some (h : r.receive n = some (xs, r')) :
    r.held = none ∧ r.queue = xs ++ r'.queue ∧ xs ≠ [] ∧ r'.held = some xs := by
  unfold receive at h
  split at h
  · next hr =>
    cases h
    exact ⟨hr.1, (List.take_append_drop _ _).symm, by simp [hr.2], rfl⟩
  · cases h

theorem receive_eq_none (h : r.receive n = none) : r.held ≠ none ∨ r.queue = [] := by
  unfold receive at h
  split at h
  · cases h
  · next hr => by_cases hh : r.held = none <;> simp_all

end Ring

end Lib
