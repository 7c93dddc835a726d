import Mathlib.Data.List.Basic
import Mathlib.Data.Option.Basic

/-! Buffers that go on at their beginning behind their end. What such a buffer holds is a queue: an item is put
behind the last one, and the first one is taken.
-/

namespace CircularBuffer

variable {α : Type} {n start k : Nat}

--------------------------------------------------
-- Places
--------------------------------------------------

/-- The place with a number below `2 * n`, which counts on at the beginning of the buffer. -/
def around (n i : Nat) : Nat := if i < n then i else i - n

theorem around_lt (start_lt : start < n) (k_le : k ≤ n) : around n (start + k) < n := by
  unfold around
  split <;> omega

theorem around_self (start_lt : start < n) : around n start = start := if_pos start_lt

/-- Once around the buffer. -/
theorem around_all : around n (start + n) = start := by
  unfold around
  split <;> omega

/-- The place where a queue began is reached again behind its last possible item. -/
theorem around_back_iff (positive : 0 < k) : around n (start + k) = start ↔ k = n := by
  unfold around
  split <;> omega

/-- The places of a queue are different. -/
theorem around_inj {j : Nat} (j_lt : j < n) (k_lt : k < n)
    : around n (start + j) = around n (start + k) ↔ j = k := by
  unfold around
  split <;> split <;> omega

/-- The place behind another one. -/
theorem around_succ (start_lt : start < n) (k_lt : k < n)
    : (if around n (start + k) + 1 = n then 0 else around n (start + k) + 1) = around n (start + (k + 1)) := by
  unfold around
  split <;> split <;> split <;> omega

/-- The places of a queue without its first item. -/
theorem around_tail (start_lt : start < n) (k_lt : k < n)
    : around n (around n (start + 1) + k) = around n (start + (k + 1)) := by
  unfold around
  split <;> split <;> split <;> omega

--------------------------------------------------
-- Queues
--------------------------------------------------

/-- The buffer holds the items, from a place on. -/
def Holds (buffer : Vector α n) (start : Nat) (items : List α) : Prop :=
  ∀ k < items.length, buffer[around n (start + k)]? = items[k]?

variable {buffer : Vector α n} {items : List α} {x : α}

theorem Holds.nil (buffer : Vector α n) (start : Nat) : Holds buffer start [] :=
  fun _ lt => absurd lt (Nat.not_lt_zero _)

/-- An item is stored behind the last one. -/
theorem Holds.push (holds : Holds buffer start items) (room : items.length < n)
    (inside : around n (start + items.length) < n)
    : Holds (buffer.set (around n (start + items.length)) x inside) start (items ++ [x]) := by
  intro k lt
  rw [List.length_append, List.length_singleton] at lt
  rcases Nat.lt_or_eq_of_le (Nat.le_of_lt_succ lt) with lt | rfl
  · have other : around n (start + items.length) ≠ around n (start + k) := fun same =>
      Nat.ne_of_gt lt ((around_inj room (Nat.lt_trans lt room)).mp same)
    rw [Vector.getElem?_set_ne inside other, holds k lt, List.getElem?_append_left lt]
  · rw [Vector.getElem?_set_self inside, List.getElem?_concat_length]

/-- The first item. -/
theorem Holds.head (holds : Holds buffer start (x :: items)) (start_lt : start < n) : buffer[start]? = some x := by
  have first := holds 0 (Nat.zero_lt_succ _)
  rwa [Nat.add_zero, around_self start_lt, List.getElem?_cons_zero] at first

/-- What is left when the first item is taken. -/
theorem Holds.tail (holds : Holds buffer start (x :: items)) (start_lt : start < n) (fits : items.length < n)
    : Holds buffer (around n (start + 1)) items := by
  intro k lt
  rw [around_tail start_lt (Nat.lt_trans lt fits), holds (k + 1) (Nat.succ_lt_succ lt), List.getElem?_cons_succ]

--------------------------------------------------
-- Bounded queues
--------------------------------------------------

/-- An item arrives at a queue of at most `n` items. -/
def offer (n : Nat) (items : List α) (x : α) : List α := if items.length = n then items else items ++ [x]

end CircularBuffer
