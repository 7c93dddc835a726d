import Smews.Core.Checksum

/-! Any mix of the calls of `checksum.inl`, and what `checksum_end` makes of it. A carry waits in its byte until
the next call, and the last ones are added by the loop of `checksum_end`.
-/

namespace Smews.Core

open OnesComplement

--------------------------------------------------
-- Calls
--------------------------------------------------

/-- A call between `checksum_init` and `checksum_end`. -/
inductive ChecksumCall
  | add (val : UInt8)
  | add16 (val : UInt16)
  | add32 (val : UInt32)
deriving DecidableEq, Repr

/-- The bytes that a call adds, most significant byte first. -/
def ChecksumCall.bytes : ChecksumCall → List UInt8
  | .add val => [val]
  | .add16 val => [(val >>> 8).toUInt8, val.toUInt8]
  | .add32 val => [(val >>> 24).toUInt8, (val >>> 16).toUInt8, (val >>> 8).toUInt8, val.toUInt8]

namespace Checksum

/-- A call. -/
def call (k : Checksum) : ChecksumCall → Checksum
  | .add val => k.add val
  | .add16 val => k.add16 val
  | .add32 val => k.add32 val

/-- The loop of `checksum_end`, until it ends. -/
inductive Ends : Checksum → Checksum → Prop
  | done {k : Checksum} (none : k.carry = 0) : Ends k k
  | round {k k' : Checksum} (left : k.carry ≠ 0) (rest : Ends (k.add 0) k') : Ends k k'

end Checksum

/-- The calls of words are made at an even place, `odd` telling that of the first call. -/
def AlignedFrom : Bool → List ChecksumCall → Prop
  | _, [] => True
  | odd, .add _ :: calls => AlignedFrom (!odd) calls
  | odd, .add16 _ :: calls => odd = false ∧ AlignedFrom odd calls
  | odd, .add32 _ :: calls => odd = false ∧ AlignedFrom odd calls

instance : ∀ odd calls, Decidable (AlignedFrom odd calls)
  | _, [] => inferInstanceAs (Decidable True)
  | odd, .add _ :: calls => instDecidableAlignedFrom (!odd) calls
  | odd, .add16 _ :: calls =>
      have := instDecidableAlignedFrom odd calls
      inferInstanceAs (Decidable (odd = false ∧ AlignedFrom odd calls))
  | odd, .add32 _ :: calls =>
      have := instDecidableAlignedFrom odd calls
      inferInstanceAs (Decidable (odd = false ∧ AlignedFrom odd calls))

namespace Checksum

variable {k k' : Checksum} {odd : Bool} {v : ZMod 65535} {calls : List ChecksumCall}

--------------------------------------------------
-- The end
--------------------------------------------------

/-- Rounds that leave no carry are those of the loop, by induction on their number. -/
theorem ends_endRounds {n : Nat} (none : (k.endRounds n).carry = 0) : k.Ends (k.endRounds n) := by
  induction n generalizing k with
  | zero => exact .done none
  | succ n ih =>
      rw [endRounds] at none ⊢
      split
      · exact .done ‹_›
      · rename_i left
        rw [if_neg left] at none
        exact .round left (ih none)

theorem ends_finish (k : Checksum) : k.Ends k.finish := ends_endRounds k.finish_carry

/-- The loop has one end, by induction on its rounds. -/
theorem Ends.unique {k₁ k₂ : Checksum} (ends₁ : k.Ends k₁) (ends₂ : k.Ends k₂) : k₁ = k₂ := by
  induction ends₁ with
  | done none =>
      cases ends₂ with
      | done _ => rfl
      | round left _ => exact absurd none left
  | round left _ ih =>
      cases ends₂ with
      | done none => exact absurd none left
      | round _ rest => exact ih rest

--------------------------------------------------
-- The sum
--------------------------------------------------

/-- A 16-bit word weighs what its bytes weigh. -/
theorem weight_word (val : UInt16)
    : weight false [(val >>> 8).toUInt8, val.toUInt8] = (val.toNat : ZMod 65535) := by
  have high : (val >>> 8).toUInt8.toNat = val.toNat / 256 := by
    have := val.toNat_lt
    simp [UInt16.toNat_shiftRight, Nat.shiftRight_eq_div_pow]
    omega
  have parts : 256 * (val.toNat / 256) + val.toNat % 256 = val.toNat := Nat.div_add_mod ..
  rw [weight, weight, weight, high, UInt16.toNat_toUInt8, add_zero]
  exact_mod_cast congrArg (Nat.cast (R := ZMod 65535)) parts

/-- A call adds its bytes at their places. -/
theorem Sums.ofCall (sums : k.Sums odd v) {c : ChecksumCall} (aligned : AlignedFrom odd (c :: calls))
    : ∃ odd', (k.call c).Sums odd' (v + weight odd c.bytes) ∧ AlignedFrom odd' calls
      ∧ odd' = (odd ^^ decide (c.bytes.length % 2 = 1)) := by
  cases c with
  | add val => exact ⟨!odd, sums.add val, aligned, by cases odd <;> rfl⟩
  | add16 val =>
      obtain ⟨rfl, rest⟩ := aligned
      refine ⟨false, ?_, rest, by simp [ChecksumCall.bytes]⟩
      rw [ChecksumCall.bytes, weight_word]
      exact sums.add16 val
  | add32 val =>
      obtain ⟨rfl, rest⟩ := aligned
      exact ⟨false, sums.add32 val, rest, by simp [ChecksumCall.bytes]⟩

/-- The calls add their bytes one after the other, by induction on the calls. -/
theorem Sums.ofCalls (sums : k.Sums odd v) (aligned : AlignedFrom odd calls)
    : ∃ odd', (calls.foldl Checksum.call k).Sums odd' (v + weight odd (calls.flatMap ChecksumCall.bytes)) := by
  induction calls generalizing k odd v with
  | nil =>
      refine ⟨odd, ?_⟩
      rw [List.foldl_nil, List.flatMap_nil, weight, add_zero]
      exact sums
  | cons c calls ih =>
      obtain ⟨odd', first, rest, place⟩ := sums.ofCall aligned
      obtain ⟨last, all⟩ := ih first rest
      refine ⟨last, ?_⟩
      rw [List.foldl_cons, List.flatMap_cons, weight_append, ← place, ← add_assoc]
      exact all

--------------------------------------------------
-- Zero
--------------------------------------------------

/-- A call makes a checksum positive when one of its bytes is not zero. -/
theorem positive_call (k : Checksum) (c : ChecksumCall)
    : (k.call c).Positive ↔ k.Positive ∨ ∃ b ∈ c.bytes, b ≠ 0 := by
  have nonzero (b : UInt8) : b ≠ 0 ↔ 0 < b.toNat := by
    rw [ne_eq, ← UInt8.toNat_inj, UInt8.toNat_zero]
    omega
  cases c with
  | add val => exact positive_addBytes k [val]
  | add16 val =>
      have bound := val.toNat_lt
      have low_small := val.toUInt8.toNat_lt
      have high : (val >>> 8).toNat = (val >>> 8).toUInt8.toNat := by
        rw [UInt16.toNat_toUInt8]
        simp [UInt16.toNat_shiftRight, Nat.shiftRight_eq_div_pow]
        omega
      have high_small := (val >>> 8).toUInt8.toNat_lt
      have low : (val &&& 0xff).toNat = val.toUInt8.toNat := by
        rw [UInt16.toNat_and, UInt16.toNat_toUInt8]
        exact Nat.and_two_pow_sub_one_eq_mod val.toNat 8
      have added : (k.add16 val).Positive
          ↔ (k.Positive ∨ 0 < (val >>> 8).toUInt8.toNat) ∨ 0 < val.toUInt8.toNat := by
        rw [add16, high, low, positive_addS1 _ _ (by omega), positive_addS0 _ _ (by omega)]
      simp only [call, ChecksumCall.bytes, added, List.exists_mem_cons_iff, nonzero, List.not_mem_nil, false_and,
        exists_false, or_false, or_assoc]
  | add32 val =>
      have word := toNat_bytes val
      simp only [call, ChecksumCall.bytes, positive_add32, List.exists_mem_cons_iff, nonzero, List.not_mem_nil,
        false_and, exists_false, or_false]
      refine or_congr_right ?_
      omega

/-- The calls make a checksum positive when one of their bytes is not zero, by induction on the calls. -/
theorem positive_calls (k : Checksum) (calls : List ChecksumCall)
    : (calls.foldl call k).Positive ↔ k.Positive ∨ ∃ b ∈ calls.flatMap ChecksumCall.bytes, b ≠ 0 := by
  induction calls generalizing k with
  | nil => simp
  | cons c calls ih =>
      rw [List.foldl_cons, ih, positive_call, List.flatMap_cons, or_assoc]
      simp only [List.mem_append, or_and_right, exists_or]

/-- Two 16-bit values that agree modulo `65535` are equal when both are zero or none is. -/
theorem eq_of_cast {a b : Nat} (a_lt : a < 65536) (b_lt : b < 65536) (cast : (a : ZMod 65535) = b)
    (zero : a = 0 ↔ b = 0)
    : a = b := by
  rw [ZMod.natCast_eq_natCast_iff'] at cast
  omega

/-- The first of some calls are aligned when all of them are, by induction on them. -/
theorem alignedFrom_front {before after : List ChecksumCall} (aligned : AlignedFrom odd (before ++ after))
    : AlignedFrom odd before := by
  induction before generalizing odd with
  | nil => trivial
  | cons c before ih =>
      cases c with
      | add val => exact ih aligned
      | add16 val => exact ⟨aligned.1, ih aligned.2⟩
      | add32 val => exact ⟨aligned.1, ih aligned.2⟩

/-- Whatever the calls, `checksum_end` ends in one state, and `current_checksum` is the sum of the words of the
bytes that were added, zero only when all of them are. After every call the two bytes and the carry weigh as much
as the bytes so far, so that no carry is lost on the way.
-/
theorem checksum_sums_words (calls : List ChecksumCall) (aligned : AlignedFrom false calls)
    : (∀ before, before <+: calls
        → (before.foldl call init).value = weight false (before.flatMap ChecksumCall.bytes))
      ∧ ∃ k, (calls.foldl call init).Ends k ∧ (∀ k', (calls.foldl call init).Ends k' → k' = k)
        ∧ k.current.toNat = sum (calls.flatMap ChecksumCall.bytes)
        ∧ (k.current = 0 → ∀ b ∈ calls.flatMap ChecksumCall.bytes, b = 0) := by
  obtain ⟨odd, sums⟩ := sums_init.ofCalls aligned
  rw [zero_add] at sums
  have fresh : ¬ init.Positive := Nat.lt_irrefl 0
  have zero : (calls.foldl call init).finish.current.toNat = 0 ↔ sum (calls.flatMap ChecksumCall.bytes) = 0 := by
    have positive := (positive_finish _).symm.trans (positive_calls init calls)
    rw [ne_eq, ← UInt16.toNat_inj, UInt16.toNat_zero] at positive
    rw [sum_eq_zero, ← not_iff_not, positive, or_iff_right fresh]
    push Not
    rfl
  have words : (calls.foldl call init).finish.current.toNat = sum (calls.flatMap ChecksumCall.bytes) :=
    eq_of_cast (UInt16.toNat_lt _) (sum_lt _) (by rw [sums.current, cast_sum]) zero
  refine ⟨fun before isPrefix => ?_, _, ends_finish _, fun k' ends => ends.unique (ends_finish _), words, fun zero => ?_⟩
  · obtain ⟨after, rfl⟩ := isPrefix
    obtain ⟨odd', sums'⟩ := sums_init.ofCalls (alignedFrom_front aligned)
    rw [sums'.value, zero_add]
  · rw [zero] at words
    exact (sum_eq_zero _).mp words.symm

/-- A byte, a word at an even place behind another byte, and two carries that reach the other end. -/
theorem checksum_sums_words_mixed
    : (∀ before, before <+: [.add 0xff, .add 0xff, .add16 0xffff, .add32 0xffffff00, .add 1]
        → (before.foldl call init).value = weight false (before.flatMap ChecksumCall.bytes))
      ∧ ∃ k, ([.add 0xff, .add 0xff, .add16 0xffff, .add32 0xffffff00, .add 1].foldl call init).Ends k
        ∧ (∀ k', ([.add 0xff, .add 0xff, .add16 0xffff, .add32 0xffffff00, .add 1].foldl call init).Ends k' → k' = k)
        ∧ k.current.toNat = sum ([.add 0xff, .add 0xff, .add16 0xffff, .add32 0xffffff00, .add 1].flatMap
            ChecksumCall.bytes)
        ∧ (k.current = 0 → ∀ b ∈ [.add 0xff, .add 0xff, .add16 0xffff, .add32 0xffffff00, .add 1].flatMap
            ChecksumCall.bytes, b = 0) :=
  checksum_sums_words [.add 0xff, .add 0xff, .add16 0xffff, .add32 0xffffff00, .add 1] (by decide)

end Checksum

end Smews.Core
