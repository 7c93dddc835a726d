import Smews.Library.OnesComplement
import Mathlib.Tactic.LinearCombination

/-! The running checksum of `checksum.inl`.
-/

namespace Smews.Core

open OnesComplement

--------------------------------------------------
-- Operations
--------------------------------------------------

/-- `current_checksum`, with `s0` the most significant byte of its 16-bit value, `checksum_carry`,
and whether `checksum_flip` is `S1`.
-/
structure Checksum where
  s0 : UInt8
  s1 : UInt8
  carry : UInt8
  flip : Bool
deriving DecidableEq, Repr

namespace Checksum

/-- `checksum_init`. -/
def init : Checksum := { s0 := 0, s1 := 0, carry := 0, flip := false }

/-- `UI16(current_checksum)`. -/
def current (k : Checksum) : UInt16 := k.s0.toUInt16 <<< 8 ||| k.s1.toUInt16

/-- `UI16(current_checksum) = val`. -/
def set (val : UInt16) (k : Checksum) : Checksum :=
  { k with s0 := (val >>> 8).toUInt8, s1 := val.toUInt8 }

/-- An addition to the byte `S0`. -/
def addS0 (val : Nat) (k : Checksum) : Checksum :=
  let sum := k.s0.toNat + val + k.carry.toNat
  { k with s0 := UInt8.ofNat sum, carry := UInt8.ofNat (sum >>> 8) }

/-- An addition to the byte `S1`. -/
def addS1 (val : Nat) (k : Checksum) : Checksum :=
  let sum := k.s1.toNat + val + k.carry.toNat
  { k with s1 := UInt8.ofNat sum, carry := UInt8.ofNat (sum >>> 8) }

/-- `checksum_add`. -/
def add (k : Checksum) (val : UInt8) : Checksum :=
  let k := if k.flip then k.addS1 val.toNat else k.addS0 val.toNat
  { k with flip := !k.flip }

/-- `checksum_add16`. -/
def add16 (val : UInt16) (k : Checksum) : Checksum :=
  (k.addS0 (val >>> 8).toNat).addS1 (val &&& 0xff).toNat

/-- `checksum_add32`. -/
def add32 (val : UInt32) (k : Checksum) : Checksum :=
  let byte (n : UInt32) : Nat := (val >>> n).toUInt8.toNat
  (k.addS0 (byte 24 + byte 8)).addS1 (byte 16 + byte 0)

/-- The first rounds of the loop of `checksum_end`. -/
def endRounds : Nat → Checksum → Checksum
  | 0, k => k
  | n + 1, k => if k.carry = 0 then k else endRounds n (k.add 0)

/-- `checksum_end`. Its loop ends after three rounds. -/
def finish (k : Checksum) : Checksum := endRounds 3 k

/-- `checksum_add` of the bytes of a buffer, in order. -/
def addBytes (bytes : List UInt8) (k : Checksum) : Checksum := bytes.foldl add k

--------------------------------------------------
-- The value of a checksum
--------------------------------------------------

/-- The sum so far. The carry of a byte belongs to the other byte. -/
def value (k : Checksum) : ZMod 65535 :=
  256 * (k.s0.toNat : ZMod 65535) + (k.s1.toNat : ZMod 65535)
    + (if k.flip then 1 else 256) * (k.carry.toNat : ZMod 65535)

/-- A checksum whose next byte belongs to `S0`, or to `S1` at odd places, with its value. -/
structure Sums (k : Checksum) (odd : Bool) (value : ZMod 65535) : Prop where
  flip : k.flip = odd
  value : k.value = value

section Sums

variable {k : Checksum} {odd : Bool} {v : ZMod 65535}

theorem sums_init : init.Sums false 0 := ⟨rfl, by simp [init, Checksum.value]⟩

/-- A byte sum is the byte that is kept and its carry. -/
theorem split_sum (sum : Nat) (small : sum < 65536)
    : ((UInt8.ofNat sum).toNat : ZMod 65535) + 256 * ((UInt8.ofNat (sum >>> 8)).toNat : ZMod 65535)
      = sum := by
  have carry : (sum >>> 8) % 256 = sum / 256 := by
    rw [Nat.shiftRight_eq_div_pow]
    omega
  have parts : sum % 256 + 256 * (sum / 256) = sum := Nat.mod_add_div sum 256
  rw [UInt8.toNat_ofNat', UInt8.toNat_ofNat']
  simp only [Nat.reducePow, carry]
  calc ((sum % 256 : Nat) : ZMod 65535) + 256 * ((sum / 256 : Nat) : ZMod 65535)
    _ = ((sum % 256 + 256 * (sum / 256) : Nat) : ZMod 65535) := by push_cast; rfl
    _ = sum := by rw [parts]

/-- `256 * 256` counts as one. -/
theorem square : (256 : ZMod 65535) * 256 = 1 := by
  have : ((256 * 256 : Nat) : ZMod 65535) = ((1 : Nat) : ZMod 65535) := by
    rw [ZMod.natCast_eq_natCast_iff']
  exact_mod_cast this

/-- An addition to `S0` leaves a carry for `S1`. -/
theorem Sums.addS0 (sums : k.Sums false v) (val : Nat) (small : val < 1024)
    : ({ k.addS0 val with flip := true }).Sums true (v + 256 * (val : ZMod 65535)) := by
  obtain ⟨flip, rfl⟩ := sums
  refine ⟨rfl, ?_⟩
  have s0 := k.s0.toNat_lt
  have carry := k.carry.toNat_lt
  have split := split_sum (k.s0.toNat + val + k.carry.toNat) (by omega)
  push_cast at split
  simp only [Checksum.value, Checksum.addS0, flip, if_true, Bool.false_eq_true, if_false]
  linear_combination 256 * split
    - ((UInt8.ofNat ((k.s0.toNat + val + k.carry.toNat) >>> 8)).toNat : ZMod 65535) * square

/-- An addition to `S1` leaves a carry for `S0`. -/
theorem Sums.addS1 (sums : k.Sums true v) (val : Nat) (small : val < 1024)
    : ({ k.addS1 val with flip := false }).Sums false (v + (val : ZMod 65535)) := by
  obtain ⟨flip, rfl⟩ := sums
  refine ⟨rfl, ?_⟩
  have s1 := k.s1.toNat_lt
  have carry := k.carry.toNat_lt
  have split := split_sum (k.s1.toNat + val + k.carry.toNat) (by omega)
  push_cast at split
  simp only [Checksum.value, Checksum.addS1, flip, if_true, Bool.false_eq_true, if_false]
  linear_combination split

/-- A byte is added at its place. -/
theorem Sums.add (sums : k.Sums odd v) (val : UInt8)
    : (k.add val).Sums (!odd) (v + weight odd [val]) := by
  have small := val.toNat_lt
  have flip := sums.flip
  cases odd with
  | false =>
      have added := sums.addS0 val.toNat (by omega)
      simpa [Checksum.add, Checksum.addS0, flip, weight] using added
  | true =>
      have added := sums.addS1 val.toNat (by omega)
      simpa [Checksum.add, Checksum.addS1, flip, weight] using added

theorem Sums.addS0_addS1 (sums : k.Sums false v) (high low : Nat) (high_small : high < 1024)
    (low_small : low < 1024)
    : ((k.addS0 high).addS1 low).Sums false (v + 256 * (high : ZMod 65535) + (low : ZMod 65535)) := by
  have added := (sums.addS0 high high_small).addS1 low low_small
  simpa [Checksum.addS0, Checksum.addS1, sums.flip] using added

/-- A 16-bit word is added at an even place. -/
theorem Sums.add16 (sums : k.Sums false v) (val : UInt16)
    : (k.add16 val).Sums false (v + (val.toNat : ZMod 65535)) := by
  have high : (val >>> 8).toNat = val.toNat / 256 := by
    simp [UInt16.toNat_shiftRight, Nat.shiftRight_eq_div_pow]
  have low : (val &&& 0xff).toNat = val.toNat % 256 := by
    rw [UInt16.toNat_and]
    exact Nat.and_two_pow_sub_one_eq_mod val.toNat 8
  have small := val.toNat_lt
  have parts : val.toNat % 256 + 256 * (val.toNat / 256) = val.toNat := Nat.mod_add_div ..
  have word : (val.toNat : ZMod 65535)
      = ((val.toNat % 256 : Nat) : ZMod 65535) + 256 * ((val.toNat / 256 : Nat) : ZMod 65535) := by
    rw [← congrArg (Nat.cast (R := ZMod 65535)) parts]
    push_cast
    rfl
  have added := sums.addS0_addS1 (val.toNat / 256) (val.toNat % 256)
    (by omega) (by omega)
  rw [Checksum.add16, high, low, word]
  convert added using 1
  ring

/-- A 32-bit word is added as its two halves. -/
theorem Sums.add32 (sums : k.Sums false v) (val : UInt32)
    : (k.add32 val).Sums false (v + weight false [(val >>> 24).toUInt8, (val >>> 16).toUInt8,
        (val >>> 8).toUInt8, val.toUInt8]) := by
  have b24 := (val >>> 24).toUInt8.toNat_lt
  have b16 := (val >>> 16).toUInt8.toNat_lt
  have b8 := (val >>> 8).toUInt8.toNat_lt
  have b0 := val.toUInt8.toNat_lt
  have added := sums.addS0_addS1 ((val >>> 24).toUInt8.toNat + (val >>> 8).toUInt8.toNat)
    ((val >>> 16).toUInt8.toNat + val.toUInt8.toNat) (by omega) (by omega)
  have unshifted : val >>> 0 = val := by simp
  simp only [Checksum.add32, unshifted]
  convert added using 1
  simp only [weight, Nat.cast_add]
  ring

/-- The bytes of a buffer are added from their place on, by induction on the buffer. -/
theorem Sums.addBytes (sums : k.Sums odd v) (bytes : List UInt8)
    : (k.addBytes bytes).Sums (odd ^^ decide (bytes.length % 2 = 1)) (v + weight odd bytes) := by
  induction bytes generalizing k odd v with
  | nil => simpa [Checksum.addBytes, weight] using sums
  | cons b bytes ih =>
      have parity : decide ((bytes.length + 1) % 2 = 1) = !decide (bytes.length % 2 = 1) := by
        rw [← decide_not, decide_eq_decide]
        omega
      have rest := ih (sums.add b)
      have place : (odd ^^ !decide (bytes.length % 2 = 1))
          = (!odd ^^ decide (bytes.length % 2 = 1)) := by
        cases odd <;> simp
      have sum : weight odd [b] + weight (!odd) bytes = weight odd (b :: bytes) := by
        cases odd <;> simp [weight]
      rw [List.length_cons, parity, place, ← sum, ← add_assoc]
      exact rest

/-- The rounds of `checksum_end` add nothing. -/
theorem Sums.endRounds (sums : k.Sums odd v) (n : Nat)
    : (k.endRounds n).value = v := by
  induction n generalizing k odd with
  | zero => exact sums.value
  | succ n ih =>
      rw [Checksum.endRounds]
      split
      · exact sums.value
      · have added := sums.add 0
        have nothing : weight odd [0] = 0 := by cases odd <;> simp [weight]
        rw [nothing, add_zero] at added
        exact ih added

end Sums

/-- The byte that the next `checksum_add` changes. -/
def next (k : Checksum) : UInt8 := if k.flip then k.s1 else k.s0

/-- The byte that the next `checksum_add` leaves. -/
def other (k : Checksum) : UInt8 := if k.flip then k.s0 else k.s1

/-- The carry is added to a byte, and the bytes change places. -/
theorem add_zero_bytes (k : Checksum)
    : (k.add 0).next = k.other
      ∧ (k.add 0).other.toNat = (k.next.toNat + k.carry.toNat) % 256
      ∧ (k.add 0).carry.toNat = (k.next.toNat + k.carry.toNat) / 256 := by
  have := k.s0.toNat_lt
  have := k.s1.toNat_lt
  have := k.carry.toNat_lt
  cases flip : k.flip <;>
    simp only [add, next, other, addS0, addS1, flip, if_true, Bool.false_eq_true, if_false,
      Bool.not_true, Bool.not_false, UInt8.toNat_zero, Nat.add_zero, UInt8.toNat_ofNat',
      Nat.shiftRight_eq_div_pow, Nat.reducePow, true_and] <;>
    omega

/-- No carry is left by the three rounds: when the first leaves one its byte is below `0xff`, and
takes the carry of the second.
-/
theorem finish_carry (k : Checksum) : k.finish.carry = 0 := by
  obtain ⟨next1, other1, carry1⟩ := add_zero_bytes k
  obtain ⟨next2, other2, carry2⟩ := add_zero_bytes (k.add 0)
  obtain ⟨-, -, carry3⟩ := add_zero_bytes ((k.add 0).add 0)
  rw [next2, other1] at carry3
  have := k.next.toNat_lt
  have := k.carry.toNat_lt
  have := (k.add 0).next.toNat_lt
  have third : (((k.add 0).add 0).add 0).carry = 0 := by
    rw [← UInt8.toNat_inj, UInt8.toNat_zero]
    omega
  simp only [finish, endRounds]
  split_ifs <;> assumption

/-- The two bytes of the 16-bit value. -/
theorem current_toNat (k : Checksum) : k.current.toNat = k.s0.toNat * 256 + k.s1.toNat := by
  have s0 := k.s0.toNat_lt
  have s1 := k.s1.toNat_lt
  have shifted : (k.s0.toUInt16 <<< 8).toNat = k.s0.toNat <<< 8 := by
    rw [UInt16.toNat_shiftLeft, UInt8.toNat_toUInt16]
    apply Nat.mod_eq_of_lt
    rw [Nat.shiftLeft_eq]
    simp only [UInt16.reduceToNat, Nat.reduceMod, Nat.reducePow]
    omega
  rw [current, UInt16.toNat_or, shifted, UInt8.toNat_toUInt16, ← Nat.shiftLeft_add_eq_or_of_lt s1,
    Nat.shiftLeft_eq]

/-- A precomputed checksum. -/
theorem sums_set (val : UInt16) : (init.set val).Sums false val.toNat := by
  have word : (init.set val).current.toNat = val.toNat := by
    have high : (val >>> 8).toUInt8.toNat = val.toNat / 256 := by
      have := val.toNat_lt
      simp [UInt16.toNat_shiftRight, Nat.shiftRight_eq_div_pow]
      omega
    rw [current_toNat, set, high, UInt16.toNat_toUInt8]
    omega
  refine ⟨rfl, ?_⟩
  rw [← word, current_toNat]
  simp [value, set, init, mul_comm]

/-- The value that a checksum ends with. -/
theorem Sums.current {k : Checksum} {odd : Bool} {v : ZMod 65535} (sums : k.Sums odd v)
    : (k.finish.current.toNat : ZMod 65535) = v := by
  have value : k.finish.value = v := sums.endRounds 3
  rw [current_toNat, ← value]
  simp [Checksum.value, finish_carry, mul_comm]

--------------------------------------------------
-- Checksums that are not zero
--------------------------------------------------

/-- Something was added that is not zero. -/
def Positive (k : Checksum) : Prop := 0 < k.s0.toNat + k.s1.toNat + k.carry.toNat

section Positive

variable {k : Checksum}

theorem positive_addS0 (k : Checksum) (val : Nat) (small : val < 1024)
    : (k.addS0 val).Positive ↔ k.Positive ∨ 0 < val := by
  have := k.s0.toNat_lt
  have := k.carry.toNat_lt
  unfold Positive
  simp only [Checksum.addS0, UInt8.toNat_ofNat', Nat.shiftRight_eq_div_pow, Nat.reducePow]
  omega

theorem positive_addS1 (k : Checksum) (val : Nat) (small : val < 1024)
    : (k.addS1 val).Positive ↔ k.Positive ∨ 0 < val := by
  have := k.s1.toNat_lt
  have := k.carry.toNat_lt
  unfold Positive
  simp only [Checksum.addS1, UInt8.toNat_ofNat', Nat.shiftRight_eq_div_pow, Nat.reducePow]
  omega

theorem Positive.addS0 (positive : k.Positive) (val : Nat) (small : val < 1024)
    : (k.addS0 val).Positive :=
  (positive_addS0 k val small).mpr (.inl positive)

theorem Positive.addS1 (positive : k.Positive) (val : Nat) (small : val < 1024)
    : (k.addS1 val).Positive :=
  (positive_addS1 k val small).mpr (.inl positive)

theorem Positive.add (positive : k.Positive) (val : UInt8) : (k.add val).Positive := by
  have := val.toNat_lt
  unfold Checksum.add
  split
  · exact positive.addS1 val.toNat (by omega)
  · exact positive.addS0 val.toNat (by omega)

theorem Positive.add16 (positive : k.Positive) (val : UInt16) : (k.add16 val).Positive := by
  have high := (val >>> 8).toNat_lt
  have bound := val.toNat_lt
  have small : (val >>> 8).toNat < 1024 := by
    simp [UInt16.toNat_shiftRight, Nat.shiftRight_eq_div_pow]
    omega
  have low : (val &&& 0xff).toNat < 1024 := by
    rw [UInt16.toNat_and]
    exact Nat.lt_of_le_of_lt Nat.and_le_right (by decide)
  exact (positive.addS0 _ small).addS1 _ low

theorem Positive.add32 (positive : k.Positive) (val : UInt32) : (k.add32 val).Positive := by
  have b24 := (val >>> 24).toUInt8.toNat_lt
  have b16 := (val >>> 16).toUInt8.toNat_lt
  have b8 := (val >>> 8).toUInt8.toNat_lt
  have b0 := (val >>> 0).toUInt8.toNat_lt
  exact (positive.addS0 ((val >>> 24).toUInt8.toNat + (val >>> 8).toUInt8.toNat) (by omega)).addS1
    ((val >>> 16).toUInt8.toNat + (val >>> 0).toUInt8.toNat) (by omega)

theorem Positive.addBytes (positive : k.Positive) (bytes : List UInt8)
    : (k.addBytes bytes).Positive := by
  induction bytes generalizing k with
  | nil => exact positive
  | cons b bytes ih => exact ih (positive.add b)

theorem Positive.finish (positive : k.Positive) : k.finish.Positive := by
  have rounds (n : Nat) {k : Checksum} (positive : k.Positive) : (k.endRounds n).Positive := by
    induction n generalizing k with
    | zero => exact positive
    | succ n ih =>
        rw [Checksum.endRounds]
        split
        · exact positive
        · exact ih (positive.add 0)
  exact rounds 3 positive

/-- A checksum is `0xffff` when its value is zero and something was added. -/
theorem Sums.current_eq_ones {odd : Bool} {v : ZMod 65535} (sums : k.Sums odd v)
    (positive : k.Positive)
    : k.finish.current = 0xffff ↔ v = 0 := by
  have current := sums.current
  constructor
  · intro ones
    rw [← current, ones]
    rfl
  · intro zero
    have divides : 65535 ∣ k.finish.current.toNat := by
      rw [← ZMod.natCast_eq_zero_iff, current, zero]
    have bound := k.finish.current.toNat_lt
    have kept := positive.finish
    have word := current_toNat k.finish
    unfold Positive at kept
    rw [finish_carry, UInt8.toNat_zero] at kept
    rw [← UInt16.toNat_inj]
    change k.finish.current.toNat = 65535
    omega

/-- A buffer with a byte that is not zero makes a checksum positive, by induction on the buffer. -/
theorem positive_addBytes (k : Checksum) (bytes : List UInt8)
    : (k.addBytes bytes).Positive ↔ k.Positive ∨ ∃ b ∈ bytes, b ≠ 0 := by
  induction bytes generalizing k with
  | nil => simp [Checksum.addBytes]
  | cons b bytes ih =>
      have small := b.toNat_lt
      have byte : 0 < b.toNat ↔ b ≠ 0 := by
        rw [ne_eq, ← UInt8.toNat_inj, UInt8.toNat_zero]
        omega
      have added : (k.add b).Positive ↔ k.Positive ∨ b ≠ 0 := by
        rw [← byte, Checksum.add]
        split
        · exact positive_addS1 k b.toNat (by omega)
        · exact positive_addS0 k b.toNat (by omega)
      have rest : ((k.add b).addBytes bytes).Positive ↔ _ := ih (k.add b)
      rw [added] at rest
      rw [List.exists_mem_cons_iff, ← or_assoc]
      exact rest

/-- The bytes of a 32-bit word. -/
theorem toNat_bytes (val : UInt32)
    : val.toNat = ((val >>> 24).toUInt8.toNat * 256 + (val >>> 16).toUInt8.toNat) * 65536
      + (val >>> 8).toUInt8.toNat * 256 + val.toUInt8.toNat := by
  have small := val.toNat_lt
  simp only [UInt32.toNat_toUInt8, UInt32.toNat_shiftRight, UInt32.reduceToNat, Nat.reduceMod,
    Nat.shiftRight_eq_div_pow, Nat.reducePow]
  omega

theorem positive_add32 (k : Checksum) (val : UInt32)
    : (k.add32 val).Positive ↔ k.Positive ∨ 0 < val.toNat := by
  have b24 := (val >>> 24).toUInt8.toNat_lt
  have b16 := (val >>> 16).toUInt8.toNat_lt
  have b8 := (val >>> 8).toUInt8.toNat_lt
  have b0 := val.toUInt8.toNat_lt
  have unshifted : val >>> 0 = val := by simp
  have word := toNat_bytes val
  rw [Checksum.add32]
  dsimp only
  rw [unshifted, positive_addS1 _ _ (by omega), positive_addS0 _ _ (by omega), or_assoc]
  refine or_congr_right ?_
  omega

/-- A 32-bit word counts as what it is modulo 65535. -/
theorem Sums.add32_toNat {v : ZMod 65535} (sums : k.Sums false v) (val : UInt32)
    : (k.add32 val).Sums false (v + (val.toNat : ZMod 65535)) := by
  have added := sums.add32 val
  convert added using 2
  rw [toNat_bytes val]
  simp only [weight]
  push_cast
  linear_combination
    (256 * ((val >>> 24).toUInt8.toNat : ZMod 65535) + ((val >>> 16).toUInt8.toNat : ZMod 65535)) * square

theorem positive_finish (k : Checksum) : k.Positive ↔ k.finish.current ≠ 0 := by
  have word := current_toNat k.finish
  rw [ne_eq, ← UInt16.toNat_inj]
  change _ ↔ ¬ k.finish.current.toNat = 0
  constructor
  · intro positive
    have kept := positive.finish
    unfold Positive at kept
    rw [finish_carry, UInt8.toNat_zero] at kept
    omega
  · intro nonzero
    by_contra zero
    have none : k.s0.toNat + k.s1.toNat + k.carry.toNat = 0 := by
      unfold Positive at zero
      omega
    have still : k.finish = k := by
      have carry : k.carry = 0 := by
        rw [← UInt8.toNat_inj, UInt8.toNat_zero]
        omega
      rw [finish, endRounds, if_pos carry]
    rw [still] at nonzero word
    omega

/-- Checksums with the same value end alike when both are zero or none is. -/
theorem Sums.current_eq {k k' : Checksum} {odd odd' : Bool} {v : ZMod 65535} (sums : k.Sums odd v)
    (sums' : k'.Sums odd' v) (alike : k.Positive ↔ k'.Positive)
    : k.finish.current = k'.finish.current := by
  rw [positive_finish, positive_finish] at alike
  have cast : (k.finish.current.toNat : ZMod 65535) = (k'.finish.current.toNat : ZMod 65535) :=
    sums.current.trans sums'.current.symm
  rw [ZMod.natCast_eq_natCast_iff'] at cast
  rw [ne_eq, ne_eq, ← UInt16.toNat_inj, ← UInt16.toNat_inj] at alike
  have bound := k.finish.current.toNat_lt
  have bound' := k'.finish.current.toNat_lt
  have zero : (0 : UInt16).toNat = 0 := rfl
  rw [zero] at alike
  rw [← UInt16.toNat_inj]
  omega

end Positive

end Checksum

end Smews.Core
