import Mathlib.Data.List.Basic

/-! Memory that lists are stored into and read from.
-/

namespace ByteMemory

variable {α : Type} {data data' : Nat → α} {idx n : Nat} {bytes : List α}

/-- A list stored into memory from a place on. -/
def putBytes (data : Nat → α) (idx : Nat) (bytes : List α) : Nat → α :=
  fun i => if idx ≤ i then bytes.getD (i - idx) (data i) else data i

/-- What lies in memory from a place on. -/
def bytesAt (data : Nat → α) (idx n : Nat) : List α := (List.range n).map fun i => data (idx + i)

@[simp]
theorem length_bytesAt (data : Nat → α) (idx n : Nat) : (bytesAt data idx n).length = n := by
  rw [bytesAt, List.length_map, List.length_range]

theorem bytesAt_succ (data : Nat → α) (idx n : Nat)
    : bytesAt data idx (n + 1) = data idx :: bytesAt data (idx + 1) n := by
  simp only [bytesAt, List.range_succ_eq_map, List.map_cons, List.map_map, Nat.add_zero, List.cons.injEq, true_and]
  refine List.map_congr_left fun i _ => ?_
  simp only [Function.comp_apply, Nat.succ_eq_add_one]
  congr 1
  omega

theorem bytesAt_add (data : Nat → α) (idx m n : Nat)
    : bytesAt data idx (m + n) = bytesAt data idx m ++ bytesAt data (idx + m) n := by
  simp only [bytesAt, List.range_add, List.map_append, List.map_map, List.append_cancel_left_eq]
  refine List.map_congr_left fun i _ => ?_
  simp only [Function.comp_apply, Nat.add_assoc]

theorem bytesAt_congr (same : ∀ i, idx ≤ i → i < idx + n → data' i = data i)
    : bytesAt data' idx n = bytesAt data idx n := by
  refine List.map_congr_left fun i mem => same _ (Nat.le_add_right idx i) ?_
  have := List.mem_range.mp mem
  omega

/-- What was stored is read back. -/
theorem bytesAt_putBytes (data : Nat → α) (idx : Nat) (bytes : List α)
    : bytesAt (putBytes data idx bytes) idx bytes.length = bytes := by
  apply List.ext_getElem
  · rw [length_bytesAt]
  · intro i _ lt
    simp [bytesAt, putBytes, lt]

/-- What lies in front of a store, or behind it. -/
theorem bytesAt_putBytes_other (data : Nat → α) {idx' : Nat}
    (other : idx' + n ≤ idx ∨ idx + bytes.length ≤ idx')
    : bytesAt (putBytes data idx bytes) idx' n = bytesAt data idx' n := by
  refine bytesAt_congr fun i ge lt => ?_
  unfold putBytes
  split_ifs with behind
  · rw [List.getD_eq_getElem?_getD, List.getElem?_eq_none (by omega), Option.getD_none]
  · rfl

end ByteMemory
