import Smews.Core.Checksum
import Smews.Core.Handlers

/-! The checksums of static files: `GenApps.py` sums the chunks of a file, and `smews_send_packet` adds up
those of a segment.
-/

namespace Smews.Output

open Smews.Core OnesComplement

--------------------------------------------------
-- generateStaticResource
--------------------------------------------------

theorem and_high (chkSum : Nat) : chkSum &&& 0xffff0000 = chkSum / 65536 % 65536 * 65536 := by
  have mask : chkSum &&& 0xffff0000 = ((chkSum >>> 16) &&& 0xffff) <<< 16 := by
    refine Nat.eq_of_testBit_eq fun i => ?_
    rw [Nat.testBit_shiftLeft, Nat.testBit_and, Nat.testBit_and, Nat.testBit_shiftRight]
    rw [show 0xffff0000 = 0xffff <<< 16 by decide, Nat.testBit_shiftLeft]
    by_cases high : 16 ≤ i
    · rw [Nat.add_sub_cancel' high]
      simp [high]
    · simp [high]
  rw [mask, show 0xffff = 2 ^ 16 - 1 by decide, Nat.and_two_pow_sub_one_eq_mod,
    Nat.shiftRight_eq_div_pow, Nat.shiftLeft_eq]

/-- The loop that folds the carries of a chunk. -/
def foldChkSum (chkSum : Nat) : Nat :=
  if chkSum &&& 0xffff0000 = 0 then chkSum
  else foldChkSum ((chkSum &&& 0xffff) + (chkSum >>> 16))
termination_by chkSum
decreasing_by
  next more =>
    rw [and_high] at more
    rw [show 0xffff = 2 ^ 16 - 1 by decide, Nat.and_two_pow_sub_one_eq_mod, Nat.shiftRight_eq_div_pow]
    omega

/-- `chkSumList`, from index `i` on. -/
def chkSumList (chuncksNbits : Nat) : Nat → Nat → List UInt8 → List Nat
  | _, _, [] => []
  | i, chkSum, byte :: rest =>
      let chuncksSize := 1 <<< chuncksNbits
      let chkSum := if i % 2 = 0 then chkSum + byte.toNat <<< 8 else chkSum + byte.toNat
      if i % chuncksSize = chuncksSize - 1 ∨ rest = [] then
        foldChkSum chkSum :: chkSumList chuncksNbits (i + 1) 0 rest
      else
        chkSumList chuncksNbits (i + 1) chkSum rest

/-- The array `chk` that is generated for a file. -/
def chk (chuncksNbits : Nat) (fileData : List UInt8) : List UInt16 :=
  (chkSumList chuncksNbits 0 0 fileData).map UInt16.ofNat

--------------------------------------------------
-- smews_send_packet
--------------------------------------------------

/-- `GET_NB_BLOCKS`. -/
def getNbBlocks (chuncksNbits length : Nat) : Nat :=
  length >>> chuncksNbits + if length % (1 <<< chuncksNbits) ≠ 0 then 1 else 0

/-- The loop that adds up the chunks; it fails where it would read behind the array. -/
def addBlocks : Nat → List UInt16 → UInt32 → Option UInt32
  | 0, _, tmpSum => some tmpSum
  | n + 1, block :: tmpptr, tmpSum => addBlocks n tmpptr (tmpSum + block.toUInt32)
  | _ + 1, [], _ => none

/-- `tmp_sum` of a segment. -/
def fileTmpSum (chuncksNbits : Nat) (fileData : List UInt8) (indexInFile segmentLength : Nat)
    : Option UInt32 :=
  addBlocks (getNbBlocks chuncksNbits segmentLength)
    ((chk chuncksNbits fileData).drop (indexInFile >>> chuncksNbits)) 0

/-- `segment_length` when `file_remaining_bytes` are left of a file. -/
def segmentLengthOf (p : Program) (mss : UInt16) (fileRemainingBytes : Nat) : Nat :=
  min fileRemainingBytes (p.maxOutSize mss)

--------------------------------------------------
-- The sum of a chunk
--------------------------------------------------

/-- The bytes of a chunk added up, from an even or an odd index on. -/
def byteSum : Bool → List UInt8 → Nat
  | _, [] => 0
  | false, b :: bytes => b.toNat * 256 + byteSum true bytes
  | true, b :: bytes => b.toNat + byteSum false bytes

theorem cast_byteSum (odd : Bool) (bytes : List UInt8)
    : (byteSum odd bytes : ZMod 65535) = weight odd bytes := by
  induction bytes generalizing odd with
  | nil => simp [byteSum, weight]
  | cons b bytes ih =>
      cases odd with
      | false =>
          simp only [byteSum, weight, Nat.cast_add, Nat.cast_mul, ih]
          ring
      | true => simp only [byteSum, weight, Nat.cast_add, ih]

theorem byteSum_le (odd : Bool) (bytes : List UInt8) : byteSum odd bytes ≤ 65280 * bytes.length := by
  induction bytes generalizing odd with
  | nil => simp [byteSum]
  | cons b bytes ih =>
      have small := b.toNat_lt
      rw [List.length_cons]
      cases odd with
      | false =>
          have rest := ih true
          simp only [byteSum]
          omega
      | true =>
          have rest := ih false
          simp only [byteSum]
          omega

theorem byteSum_pos (odd : Bool) (bytes : List UInt8) : 0 < byteSum odd bytes ↔ ∃ b ∈ bytes, b ≠ 0 := by
  induction bytes generalizing odd with
  | nil => simp [byteSum]
  | cons b bytes ih =>
      have byte : 0 < b.toNat ↔ b ≠ 0 := by
        rw [ne_eq, ← UInt8.toNat_inj, UInt8.toNat_zero]
        omega
      rw [List.exists_mem_cons_iff, ← byte]
      cases odd with
      | false =>
          rw [← ih true, byteSum]
          omega
      | true =>
          rw [← ih false, byteSum]
          omega

/-- What a chunk's carries fold to is the same modulo 65535, and fits 16 bits, by recursion on the loop. -/
theorem foldChkSum_spec (chkSum : Nat) (small : chkSum < 0x100000000)
    : foldChkSum chkSum < 65536 ∧ (foldChkSum chkSum : ZMod 65535) = chkSum
      ∧ (0 < foldChkSum chkSum ↔ 0 < chkSum) := by
  fun_induction foldChkSum chkSum with
  | case1 chkSum done =>
      rw [and_high] at done
      exact ⟨by omega, rfl, Iff.rfl⟩
  | case2 chkSum more ih =>
      rw [and_high] at more
      rw [show 0xffff = 2 ^ 16 - 1 by decide, Nat.and_two_pow_sub_one_eq_mod,
        Nat.shiftRight_eq_div_pow] at ih ⊢
      obtain ⟨lt, cast, pos⟩ := ih (by omega)
      refine ⟨lt, ?_, ?_⟩
      · rw [cast, ZMod.natCast_eq_natCast_iff']
        omega
      · rw [pos]
        omega

--------------------------------------------------
-- The chunks of a file
--------------------------------------------------

section Chunks

variable {n : Nat}

/-- The sum so far goes on to the end of the chunk, by induction on the bytes to come. -/
theorem chkSumList_chunk (even : 1 ≤ n) {i chkSum : Nat} {bytes : List UInt8} (some : bytes ≠ [])
    : chkSumList n i chkSum bytes
      = foldChkSum (chkSum + byteSum (decide (i % 2 = 1)) (bytes.take (1 <<< n - i % (1 <<< n))))
        :: chkSumList n (i + (1 <<< n - i % (1 <<< n))) 0 (bytes.drop (1 <<< n - i % (1 <<< n))) := by
  obtain ⟨half, size⟩ : ∃ half, 1 <<< n = 2 * half := by
    obtain ⟨m, rfl⟩ : ∃ m, n = m + 1 := ⟨n - 1, by omega⟩
    exact ⟨1 <<< m, by rw [Nat.shiftLeft_eq, Nat.shiftLeft_eq, one_mul, one_mul, Nat.pow_succ, mul_comm]⟩
  have positive : 0 < half := by
    have := Nat.one_shiftLeft n
    have := Nat.two_pow_pos n
    omega
  rw [size]
  induction bytes generalizing i chkSum with
  | nil => exact absurd rfl some
  | cons byte rest ih =>
      have inside := Nat.mod_lt i (by omega : 0 < 2 * half)
      have here : (if i % 2 = 0 then chkSum + byte.toNat <<< 8 else chkSum + byte.toNat)
          = chkSum + byteSum (decide (i % 2 = 1)) [byte] := by
        rcases Nat.mod_two_eq_zero_or_one i with parity | parity
        · simp [parity, byteSum, Nat.shiftLeft_eq]
        · simp [parity, byteSum]
      rw [chkSumList, here, size]
      by_cases last : i % (2 * half) = 2 * half - 1
      · rw [if_pos (.inl last), show 2 * half - i % (2 * half) = 1 by omega]
        rfl
      · by_cases none : rest = []
        · rw [if_pos (.inr none), none, List.take_of_length_le (by rw [List.length_singleton]; omega),
            List.drop_of_length_le (by rw [List.length_singleton]; omega)]
          rfl
        · have next : (i + 1) % (2 * half) = i % (2 * half) + 1 := by
            rw [Nat.add_mod, Nat.mod_eq_of_lt (by omega : 1 < 2 * half), Nat.mod_eq_of_lt (by omega)]
          have parity : decide ((i + 1) % 2 = 1) = !decide (i % 2 = 1) := by
            rw [← decide_not, decide_eq_decide]
            omega
          obtain ⟨k, left⟩ : ∃ k, 2 * half - i % (2 * half) = k + 1 := ⟨2 * half - i % (2 * half) - 1, by omega⟩
          have left' : 2 * half - (i + 1) % (2 * half) = k := by omega
          rw [if_neg (not_or.mpr ⟨last, none⟩), ih none, left', left, List.take_succ_cons,
            List.drop_succ_cons, parity, show i + 1 + k = i + (k + 1) by omega]
          congr 2
          cases decide (i % 2 = 1) <;> simp [byteSum, Nat.add_assoc]

/-- The chunk at the beginning of what is left of a file. -/
theorem chkSumList_cons (even : 1 ≤ n) {block : Nat} {bytes : List UInt8} (some : bytes ≠ [])
    : chkSumList n (block * (1 <<< n)) 0 bytes
      = foldChkSum (byteSum false (bytes.take (1 <<< n)))
        :: chkSumList n ((block + 1) * (1 <<< n)) 0 (bytes.drop (1 <<< n)) := by
  have chunk := @chkSumList_chunk n even (block * (1 <<< n)) 0 bytes some
  have parity : decide (block * (1 <<< n) % 2 = 1) = false := by
    obtain ⟨m, rfl⟩ : ∃ m, n = m + 1 := ⟨n - 1, by omega⟩
    rw [decide_eq_false_iff_not, Nat.shiftLeft_eq, one_mul, Nat.pow_succ, ← mul_assoc]
    omega
  rw [Nat.mul_mod_left, Nat.sub_zero, parity, zero_add, ← Nat.succ_mul] at chunk
  exact chunk

/-- The sums of the chunks from one on, by induction on the chunks before it. -/
theorem chkSumList_drop (even : 1 ≤ n) {first : Nat} (block : Nat) {bytes : List UInt8}
    : (chkSumList n (first * (1 <<< n)) 0 bytes).drop block
      = chkSumList n ((first + block) * (1 <<< n)) 0 (bytes.drop (block * (1 <<< n))) := by
  induction block generalizing first bytes with
  | zero => rw [List.drop_zero, Nat.zero_mul, List.drop_zero, Nat.add_zero]
  | succ block ih =>
      cases bytes with
      | nil => rw [List.drop_nil, chkSumList, chkSumList, List.drop_nil]
      | cons byte rest =>
          rw [chkSumList_cons even (List.cons_ne_nil _ _), List.drop_succ_cons, ih, List.drop_drop,
            show first + 1 + block = first + (block + 1) by omega, Nat.succ_mul, Nat.add_comm (1 <<< n)]

/-- One block less for one chunk less. -/
theorem getNbBlocks_succ {length : Nat} (some : 0 < length)
    : getNbBlocks n length = getNbBlocks n (length - 1 <<< n) + 1 := by
  have size : 0 < 1 <<< n := by
    rw [Nat.one_shiftLeft]
    exact Nat.two_pow_pos n
  rw [getNbBlocks, getNbBlocks, Nat.shiftRight_eq_div_pow, Nat.shiftRight_eq_div_pow, ← Nat.one_shiftLeft]
  by_cases small : length < 1 <<< n
  · rw [Nat.div_eq_of_lt small, Nat.mod_eq_of_lt small, if_pos (by omega), Nat.sub_eq_zero_of_le (by omega),
      Nat.zero_div, Nat.zero_mod, if_neg (by simp)]
  · rw [← Nat.mod_eq_sub_mod (by omega), Nat.div_eq_sub_div size (by omega)]
    omega

/-- What the chunks of a segment add up to. -/
structure Adds (sums : List Nat) (blocks limit : Nat) (bytes : List UInt8) : Prop where
  enough : blocks ≤ sums.length
  small : ∀ sum ∈ sums.take blocks, sum < 65536
  total : (sums.take blocks).sum ≤ limit * 65535
  cast : ((sums.take blocks).sum : ZMod 65535) = weight false bytes
  pos : 0 < (sums.take blocks).sum ↔ ∃ b ∈ bytes, b ≠ 0

/-- The chunks of what is left of a file, by induction on the chunks that fit the segment. -/
theorem chkSumList_adds (even : 1 ≤ n) (fits : n ≤ 15) {first : Nat} (m : Nat) (bytes : List UInt8)
    : Adds (chkSumList n (first * (1 <<< n)) 0 bytes)
        (getNbBlocks n (min bytes.length (m * (1 <<< n)))) m (bytes.take (m * (1 <<< n))) := by
  have none : getNbBlocks n 0 = 0 := by
    rw [getNbBlocks, Nat.zero_mod, if_neg (by simp), Nat.zero_shiftRight]
  have bound : 1 <<< n ≤ 32768 := by
    rw [Nat.one_shiftLeft]
    exact Nat.pow_le_pow_right (by decide : 0 < 2) fits
  have double : 1 <<< n % 2 = 0 := by
    obtain ⟨k, rfl⟩ : ∃ k, n = k + 1 := ⟨n - 1, by omega⟩
    rw [Nat.one_shiftLeft, Nat.pow_succ]
    omega
  induction m generalizing first bytes with
  | zero =>
      rw [Nat.zero_mul, Nat.min_zero, none, List.take_zero]
      exact ⟨Nat.zero_le _, by simp, by simp, by simp [weight], by simp⟩
  | succ m ih =>
      by_cases empty : bytes = []
      · rw [empty, List.length_nil, Nat.zero_min, none, List.take_nil]
        exact ⟨Nat.zero_le _, by simp, by simp, by simp [weight], by simp⟩
      · have positive := List.length_pos_iff.mpr empty
        have size : 0 < 1 <<< n := by
          rw [Nat.one_shiftLeft]
          exact Nat.two_pow_pos n
        have length : min bytes.length ((m + 1) * (1 <<< n)) - 1 <<< n
            = min (bytes.drop (1 <<< n)).length (m * (1 <<< n)) := by
          rw [List.length_drop, Nat.succ_mul]
          omega
        obtain ⟨enough, small, total, cast, pos⟩ := @ih (first + 1) (bytes.drop (1 <<< n))
        have chunk := byteSum_le false (bytes.take (1 <<< n))
        rw [List.length_take] at chunk
        obtain ⟨fold, foldCast, foldPos⟩ :=
          foldChkSum_spec (byteSum false (bytes.take (1 <<< n))) (by omega)
        have parts : bytes.take ((m + 1) * (1 <<< n))
            = bytes.take (1 <<< n) ++ (bytes.drop (1 <<< n)).take (m * (1 <<< n)) := by
          rw [Nat.succ_mul, Nat.add_comm, List.take_add]
        rw [chkSumList_cons even empty, getNbBlocks_succ (by rw [Nat.succ_mul]; omega), length, parts]
        refine ⟨by rw [List.length_cons]; omega, ?_, ?_, ?_, ?_⟩
        · rw [List.take_succ_cons, List.forall_mem_cons]
          exact ⟨fold, small⟩
        · rw [List.take_succ_cons, List.sum_cons]
          omega
        · rw [List.take_succ_cons, List.sum_cons, Nat.cast_add, cast, foldCast, cast_byteSum]
          by_cases whole : 1 <<< n ≤ bytes.length
          · rw [weight_append_even (by rw [List.length_take]; omega)]
          · rw [List.drop_of_length_le (by omega), List.take_nil, List.append_nil, weight, add_zero]
        · rw [List.take_succ_cons, List.sum_cons, Nat.add_pos_iff_pos_or_pos, pos, foldPos, byteSum_pos]
          simp only [List.mem_append, or_and_right, exists_or]

end Chunks

--------------------------------------------------
-- The checksum of a segment
--------------------------------------------------

/-- The loop adds up the blocks, as long as the sum fits 32 bits, by induction on the blocks. -/
theorem addBlocks_eq {count : Nat} {sums : List Nat} {tmpSum : UInt32} (enough : count ≤ sums.length)
    (small : ∀ sum ∈ sums.take count, sum < 65536)
    (fits : tmpSum.toNat + (sums.take count).sum < 0x100000000)
    : ∃ tmpSum', addBlocks count (sums.map UInt16.ofNat) tmpSum = some tmpSum'
      ∧ tmpSum'.toNat = tmpSum.toNat + (sums.take count).sum := by
  induction count generalizing sums tmpSum with
  | zero => exact ⟨tmpSum, by rw [addBlocks], by simp⟩
  | succ count ih =>
      cases sums with
      | nil => exact absurd enough (Nat.not_succ_le_zero count)
      | cons sum sums =>
          rw [List.take_succ_cons, List.forall_mem_cons] at small
          rw [List.take_succ_cons, List.sum_cons] at fits ⊢
          have added : (tmpSum + (UInt16.ofNat sum).toUInt32).toNat = tmpSum.toNat + sum := by
            rw [UInt32.toNat_add, UInt16.toNat_toUInt32, UInt16.toNat_ofNat']
            simp only [Nat.reducePow]
            omega
          obtain ⟨tmpSum', eq, toNat⟩ := @ih sums (tmpSum + (UInt16.ofNat sum).toUInt32)
            (Nat.le_of_succ_le_succ enough) small.2 (by omega)
          exact ⟨tmpSum', by rw [List.map_cons, addBlocks, eq], by omega⟩

/-- The blocks of a segment add up in 32 bits to what its bytes weigh. -/
theorem fileTmpSum_eq (p : Program) (even : 1 ≤ p.chuncksNbits) (fileData : List UInt8) (block : Nat)
    (mss : UInt16) {index length : Nat} (aligned : index = block * (1 <<< p.chuncksNbits))
    (short : length = segmentLengthOf p mss (fileData.length - index))
    : ∃ tmpSum, fileTmpSum p.chuncksNbits fileData index length = some tmpSum
      ∧ tmpSum.toNat = ((((chk p.chuncksNbits fileData).drop (index >>> p.chuncksNbits)).take
          (getNbBlocks p.chuncksNbits length)).map UInt16.toNat).sum
      ∧ (tmpSum.toNat : ZMod 65535) = weight false ((fileData.drop index).take length)
      ∧ (0 < tmpSum.toNat ↔ ∃ b ∈ (fileData.drop index).take length, b ≠ 0) := by
  have whole : p.maxOutSize mss = mss.toNat >>> p.chuncksNbits * (1 <<< p.chuncksNbits) := by
    rw [Program.maxOutSize, Nat.shiftLeft_eq, Nat.one_shiftLeft]
  have bound := mss.toNat_lt
  have blocks : getNbBlocks p.chuncksNbits 0 = 0 := by
    rw [getNbBlocks, Nat.zero_mod, if_neg (by simp), Nat.zero_shiftRight]
  by_cases long : p.chuncksNbits ≤ 15
  · have adds := @chkSumList_adds p.chuncksNbits even long block (mss.toNat >>> p.chuncksNbits)
      (fileData.drop index)
    have dropped := @chkSumList_drop p.chuncksNbits even 0 block fileData
    have segment : (fileData.drop index).take (p.maxOutSize mss) = (fileData.drop index).take length := by
      rw [short, segmentLengthOf, Nat.min_comm, ← List.take_take, ← List.length_drop, List.take_length]
    rw [Nat.zero_mul, Nat.zero_add, ← aligned] at dropped
    rw [List.length_drop, ← whole, ← aligned, ← dropped, ← segmentLengthOf, ← short, segment] at adds
    obtain ⟨enough, small, total, cast, pos⟩ := adds
    have index_eq : index >>> p.chuncksNbits = block := by
      rw [aligned, Nat.one_shiftLeft, Nat.shiftRight_eq_div_pow, Nat.mul_div_cancel _ (Nat.two_pow_pos _)]
    have few : mss.toNat >>> p.chuncksNbits ≤ 32768 := by
      rw [Nat.shiftRight_eq_div_pow]
      have two : 2 ^ 1 ≤ 2 ^ p.chuncksNbits := Nat.pow_le_pow_right (by decide) even
      have half : mss.toNat / 2 ^ p.chuncksNbits ≤ mss.toNat / 2 ^ 1 :=
        Nat.div_le_div_left two (by decide)
      omega
    obtain ⟨tmpSum, eq, toNat⟩ := @addBlocks_eq _ _ 0 enough small
      (by rw [UInt32.toNat_zero]; omega)
    rw [UInt32.toNat_zero, Nat.zero_add] at toNat
    refine ⟨tmpSum, by rw [fileTmpSum, index_eq, chk, ← List.map_drop]; exact eq, ?_,
      by rw [toNat, cast], by rw [toNat, pos]⟩
    rw [toNat, index_eq, chk, ← List.map_drop, ← List.map_take, List.map_map]
    congr 1
    refine (List.map_id _).symm.trans (List.map_congr_left fun sum mem => ?_)
    have lt := small sum mem
    rw [id, Function.comp, UInt16.toNat_ofNat']
    simp only [Nat.reducePow]
    omega
  · have none : p.maxOutSize mss = 0 := by
      rw [whole, Nat.shiftRight_eq_div_pow, Nat.div_eq_of_lt, Nat.zero_mul]
      exact Nat.lt_of_lt_of_le bound (Nat.pow_le_pow_right (by decide) (by omega))
    rw [segmentLengthOf, none, Nat.min_zero] at short
    rw [short, fileTmpSum, blocks, List.take_zero, List.take_zero]
    exact ⟨0, by rw [addBlocks], by simp, by simp [weight], by simp⟩

/-- A sum with the value of a segment changes the checksum as its bytes would. -/
theorem add32_agrees {tmpSum : UInt32} {bytes : List UInt8}
    (cast : (tmpSum.toNat : ZMod 65535) = weight false bytes) (pos : 0 < tmpSum.toNat ↔ ∃ b ∈ bytes, b ≠ 0)
    {k : Checksum} (aligned : k.flip = false)
    : (k.add32 tmpSum).finish.current = (k.addBytes bytes).finish.current := by
  have sums : k.Sums false k.value := ⟨aligned, rfl⟩
  have added := sums.add32_toNat tmpSum
  rw [cast] at added
  refine added.current_eq (sums.addBytes bytes) ?_
  rw [Checksum.positive_add32, Checksum.positive_addBytes, pos]

end Smews.Output
