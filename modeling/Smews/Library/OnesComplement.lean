import Mathlib.Data.ZMod.Basic
import Mathlib.Tactic.Ring

/-! Sums of 16-bit words in ones' complement arithmetic, as Internet checksums use them.
-/

namespace OnesComplement

--------------------------------------------------
-- Sums
--------------------------------------------------

/-- The sum of two words, with the carry added at the other end. -/
def add (a b : Nat) : Nat := if a + b < 65536 then a + b else a + b - 65535

/-- The sum of the 16-bit words of a byte string, most significant bytes first. A last odd byte is
padded with zeros.
-/
def sum : List UInt8 → Nat
  | [] => 0
  | [high] => high.toNat * 256
  | high :: low :: bytes => add (high.toNat * 256 + low.toNat) (sum bytes)

instance atLeastTwo_256 : Nat.AtLeastTwo 256 := ⟨by decide⟩

/-- The sum of the bytes of a string modulo `65535`, where those at an odd place count once and the
others 256 times.
-/
def weight : Bool → List UInt8 → ZMod 65535
  | _, [] => 0
  | false, b :: bytes => 256 * (b.toNat : ZMod 65535) + weight true bytes
  | true, b :: bytes => (b.toNat : ZMod 65535) + weight false bytes

theorem add_lt {a b : Nat} (ha : a < 65536) (hb : b < 65536)
    : add a b < 65536 := by
  unfold add
  split <;> omega

theorem add_eq_zero {a b : Nat} (ha : a < 65536) (hb : b < 65536)
    : add a b = 0 ↔ a = 0 ∧ b = 0 := by
  unfold add
  split <;> omega

/-- The carry that is added at the other end does not change a sum modulo `65535`. -/
theorem cast_add (a b : Nat) : (add a b : ZMod 65535) = a + b := by
  rw [← Nat.cast_add, ZMod.natCast_eq_natCast_iff']
  unfold add
  split <;> omega

theorem word_lt (high low : UInt8) : high.toNat * 256 + low.toNat < 65536 := by
  have := high.toNat_lt
  have := low.toNat_lt
  omega

theorem sum_lt (bytes : List UInt8) : sum bytes < 65536 := by
  fun_induction sum bytes with
  | case1 => decide
  | case2 high =>
      have := high.toNat_lt
      omega
  | case3 high low bytes ih => exact add_lt (word_lt high low) ih

theorem cast_sum (bytes : List UInt8) : (sum bytes : ZMod 65535) = weight false bytes := by
  fun_induction sum bytes with
  | case1 => simp [weight]
  | case2 high => simp [weight, mul_comm]
  | case3 high low bytes ih =>
      rw [cast_add, ih]
      simp only [weight]
      push_cast
      ring

/-- A sum is zero only when all the bytes are. -/
theorem sum_eq_zero (bytes : List UInt8) : sum bytes = 0 ↔ ∀ b ∈ bytes, b = 0 := by
  fun_induction sum bytes with
  | case1 => simp
  | case2 high =>
      rw [List.forall_mem_singleton, ← UInt8.toNat_inj, UInt8.toNat_zero]
      omega
  | case3 high low bytes ih =>
      rw [add_eq_zero (word_lt high low) (sum_lt bytes), ih, List.forall_mem_cons,
        List.forall_mem_cons, ← UInt8.toNat_inj, ← UInt8.toNat_inj, UInt8.toNat_zero, ← and_assoc]
      have word : high.toNat * 256 + low.toNat = 0 ↔ high.toNat = 0 ∧ low.toNat = 0 := by omega
      rw [word]

/-- A byte string sums to `0xffff` when its weight is zero and one of its bytes is not. -/
theorem sum_eq_ones {bytes : List UInt8} (zero : weight false bytes = 0)
    (nonzero : ∃ b ∈ bytes, b ≠ 0)
    : sum bytes = 0xffff := by
  have bound := sum_lt bytes
  have positive : sum bytes ≠ 0 := by
    rw [ne_eq, sum_eq_zero]
    intro all
    obtain ⟨b, mem, nonzero⟩ := nonzero
    exact nonzero (all b mem)
  have divides : 65535 ∣ sum bytes := by
    rw [← ZMod.natCast_eq_zero_iff, cast_sum, zero]
  omega

--------------------------------------------------
-- Weights
--------------------------------------------------

/-- A string of an even length keeps the places of the bytes behind it. -/
theorem weight_append (odd : Bool) (front back : List UInt8)
    : weight odd (front ++ back)
      = weight odd front + weight (odd ^^ decide (front.length % 2 = 1)) back := by
  induction front generalizing odd with
  | nil => cases odd <;> simp [weight]
  | cons b front ih =>
      have parity : decide ((front.length + 1) % 2 = 1) = !decide (front.length % 2 = 1) := by
        rw [← decide_not, decide_eq_decide]
        omega
      cases odd <;>
        simp only [List.cons_append, weight, ih, List.length_cons, parity, add_assoc,
          Bool.false_xor, Bool.true_xor, Bool.not_not]

theorem weight_append_even {front : List UInt8} (even : front.length % 2 = 0) (odd : Bool)
    (back : List UInt8)
    : weight odd (front ++ back) = weight odd front + weight odd back := by
  simp [weight_append, even]

/-- A string of an even length weighs in reverse what it weighs from the other place on. -/
theorem weight_reverse {bytes : List UInt8} (even : bytes.length % 2 = 0) (odd : Bool)
    : weight odd bytes.reverse = weight (!odd) bytes := by
  have general (odd : Bool)
      : weight odd bytes.reverse = weight (!odd ^^ decide (bytes.length % 2 = 1)) bytes := by
    clear even
    induction bytes generalizing odd with
    | nil => cases odd <;> rfl
    | cons b bytes ih =>
        have parity : decide ((bytes.length + 1) % 2 = 1) = !decide (bytes.length % 2 = 1) := by
          rw [← decide_not, decide_eq_decide]
          omega
        rw [List.reverse_cons, weight_append, ih, List.length_reverse, List.length_cons, parity]
        cases odd <;> cases decide (bytes.length % 2 = 1) <;> simp [weight, add_comm]
  simp [general, even]

end OnesComplement
