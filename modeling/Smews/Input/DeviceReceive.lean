import Smews.Input.DeviceParsing
import Smews.Output.Wire

/-! The packets that `smews_receive` reads: how many bytes, what it sums, and what it does.
-/

namespace Smews.Input.Device

open Smews.Core ByteSource Partial OnesComplement

--------------------------------------------------
-- Words
--------------------------------------------------

section Words

variable {σ : Type} {src : Source σ} {dry last : σ → Prop} {k : Checksum}

theorem word16_toNat (a b : UInt8) : (word16 a b).toNat = a.toNat * 256 + b.toNat := by
  have := a.toNat_lt
  have := b.toNat_lt
  simp only [word16, UInt16.toNat_add, UInt16.toNat_mul, UInt8.toNat_toUInt16, UInt16.reduceToNat]
  omega

theorem word16_high (a b : UInt8) : (word16 a b >>> 8).toUInt8 = a := by
  have := b.toNat_lt
  have := a.toNat_lt
  rw [← UInt8.toNat_inj, UInt16.toNat_toUInt8, UInt16.toNat_shiftRight, word16_toNat]
  simp only [UInt16.reduceToNat, Nat.reduceMod, Nat.shiftRight_eq_div_pow, Nat.reducePow]
  omega

theorem word16_low (a b : UInt8) : (word16 a b).toUInt8 = b := by
  have := b.toNat_lt
  rw [← UInt8.toNat_inj, UInt16.toNat_toUInt8, word16_toNat]
  omega

theorem word32_toNat (a b c d : UInt8)
    : (word32 a b c d).toNat = (a.toNat * 256 + b.toNat) * 65536 + (c.toNat * 256 + d.toNat) := by
  have := a.toNat_lt
  have := b.toNat_lt
  have := c.toNat_lt
  have := d.toNat_lt
  simp only [word32, UInt32.toNat_add, UInt32.toNat_mul, UInt16.toNat_toUInt32, word16_toNat,
    UInt32.reduceToNat]
  omega

/-- The bytes of a word are those that it was made of. -/
theorem word32_bytes (a b c d : UInt8)
    : [(word32 a b c d >>> 24).toUInt8, (word32 a b c d >>> 16).toUInt8,
        (word32 a b c d >>> 8).toUInt8, (word32 a b c d).toUInt8]
      = [a, b, c, d] := by
  have := a.toNat_lt
  have := b.toNat_lt
  have := c.toNat_lt
  have := d.toNat_lt
  simp only [List.cons.injEq, and_true, ← UInt8.toNat_inj, UInt32.toNat_toUInt8,
    UInt32.toNat_shiftRight, word32_toNat, UInt32.reduceToNat, Nat.reduceMod,
    Nat.shiftRight_eq_div_pow, Nat.reducePow]
  omega

theorem cast_word16 (a b : UInt8) : ((word16 a b).toNat : ZMod 65535) = weight false [a, b] := by
  rw [word16_toNat]
  simp [weight, mul_comm]

theorem weight_two (a b : UInt8) (rest : List UInt8)
    : weight false (a :: b :: rest) = weight false [a, b] + weight false rest := by
  simp only [weight]
  ring

theorem weight_four (a b c d : UInt8) (rest : List UInt8)
    : weight false (a :: b :: c :: d :: rest)
      = weight false [a, b, c, d] + weight false rest := by
  simp only [weight]
  ring

theorem sums_add32 {v : ZMod 65535} (sums : k.Sums false v) (a b c d : UInt8)
    : (k.add32 (word32 a b c d)).Sums false (v + weight false [a, b, c, d]) := by
  have added := sums.add32 (word32 a b c d)
  rwa [word32_bytes] at added

theorem sums_add16 {v : ZMod 65535} (sums : k.Sums false v) (a b : UInt8)
    : (k.add16 (word16 a b)).Sums false (v + weight false [a, b]) := by
  rw [← cast_word16]
  exact sums.add16 (word16 a b)

theorem getc_reads (b : UInt8) : Reads src dry last k (getc src) [b] (some b) (k.add b) :=
  (Reads.byte k b).bind ((Reads.modify k _).bind (Reads.pure _ _))

theorem getc16_reads (a b : UInt8)
    : Reads src dry last k (getc16 src) [a, b] (some (word16 a b)) (k.add16 (word16 a b)) :=
  (Reads.byte k a).bind ((Reads.byte k b).bind ((Reads.modify k _).bind (Reads.pure _ _)))

theorem getc32_reads (a b c d : UInt8)
    : Reads src dry last k (getc32 src) [a, b, c, d] (some (word32 a b c d))
        (k.add32 (word32 a b c d)) :=
  (Reads.byte k a).bind ((Reads.byte k b).bind ((Reads.byte k c).bind ((Reads.byte k d).bind
    ((Reads.modify k _).bind (Reads.pure _ _)))))

theorem checksumEnd_reads
    : Reads src dry last k checksumEnd [] (some k.finish.current) k.finish :=
  (Reads.modify k _).bind ((Reads.state _).bind (Reads.pure _ _))

/-- Bytes that are skipped are summed, by induction on them. -/
theorem skip_reads (bytes : List UInt8)
    : Reads src dry last k (skip src bytes.length) bytes (some ()) (k.addBytes bytes) := by
  induction bytes generalizing k with
  | nil => exact .pure k ()
  | cons b bytes ih => exact (getc_reads b).bind ih

/-- Words that are skipped are summed, by induction on their number. -/
theorem skipWords_reads {bytes : List UInt8} {n : Nat} (length : bytes.length = n * 4)
    : ∃ k', Reads src dry last k (skipWords src n) bytes (some ()) k'
        ∧ ∀ v, k.Sums false v → k'.Sums false (v + weight false bytes) := by
  induction n generalizing bytes k with
  | zero =>
      rw [Nat.zero_mul, List.length_eq_zero_iff] at length
      subst length
      exact ⟨k, .pure k (), fun v sums => by rwa [weight, add_zero]⟩
  | succ n ih =>
      rcases bytes with _ | ⟨a, _ | ⟨b, _ | ⟨c, _ | ⟨d, bytes⟩⟩⟩⟩
      all_goals simp only [List.length_nil, List.length_cons] at length
      all_goals try omega
      have length : bytes.length = n * 4 := by omega
      obtain ⟨k', reads, sums⟩ := ih length (k := k.add32 (word32 a b c d))
      refine ⟨k', (getc32_reads a b c d).bind reads, fun v start => ?_⟩
      rw [weight_four, ← add_assoc]
      exact sums _ (sums_add32 start a b c d)

end Words

--------------------------------------------------
-- The IP header
--------------------------------------------------

section Ip

/-- Some bytes of a packet. -/
def bytesFrom (B : Nat → UInt8) (i n : Nat) : List UInt8 := (List.range' i n).map B

/-- A fragment, by its flags and its offset. -/
def IsFragment (B : Nat → UInt8) : Prop := B 6 &&& 0x20 ≠ 0 ∨ B 6 &&& 0x1f ≠ 0 ∨ B 7 ≠ 0

instance (B : Nat → UInt8) : Decidable (IsFragment B) := by
  unfold IsFragment
  infer_instance

/-- The fields of an IP header. -/
def ipFields (B : Nat → UInt8) : IpHeader :=
  {
    packetLength := word16 (B 2) (B 3) - 20
    protocol := B 9
    srcAddr := word32 (B 12) (B 13) (B 14) (B 15)
  }

variable {σ : Type} {src : Source σ} {dry last : σ → Prop} {B : Nat → UInt8} {k : Checksum}

/-- Only the first byte is read of a packet with another version or with options. -/
theorem ipHeader_version (version : B 0 ≠ 0x45)
    : ∃ k', Reads src dry last k (ipHeader src) (bytesFrom B 0 1) none k' :=
  ⟨_, (Reads.modify k _).bind ((getc_reads (B 0)).bind
    (Reads.bind_none (Reads.check_false _ version)))⟩

/-- Eight bytes are read of a fragment. -/
theorem ipHeader_fragment (version : B 0 = 0x45) (fragment : IsFragment B)
    : ∃ k', Reads src dry last k (ipHeader src) (bytesFrom B 0 8) none k' := by
  have words : Reads src dry last k checksumInit [] (some ()) Checksum.init := .modify k _
  by_cases flags : ¬ ((word16 (B 6) (B 7) >>> 8).toUInt8 &&& 0x20 ≠ 0
      ∨ (word16 (B 6) (B 7) >>> 8).toUInt8 &&& 0x1f ≠ 0)
  · have offset : ¬ (word16 (B 6) (B 7)).toUInt8 = 0 := by
      rw [word16_high] at flags
      rw [word16_low]
      rcases fragment with more | high | low
      · exact absurd (.inl more) flags
      · exact absurd (.inr high) flags
      · exact low
    exact ⟨_, words.bind ((getc_reads (B 0)).bind ((Reads.check_true _ version).bind
      ((getc_reads (B 1)).bind ((getc16_reads (B 2) (B 3)).bind ((getc16_reads (B 4) (B 5)).bind
      ((getc16_reads (B 6) (B 7)).bind ((Reads.check_true _ flags).bind
      (Reads.bind_none (Reads.check_false _ offset)))))))))⟩
  · exact ⟨_, words.bind ((getc_reads (B 0)).bind ((Reads.check_true _ version).bind
      ((getc_reads (B 1)).bind ((getc16_reads (B 2) (B 3)).bind ((getc16_reads (B 4) (B 5)).bind
      ((getc16_reads (B 6) (B 7)).bind (Reads.bind_none (Reads.check_false _ flags))))))))⟩

/-- The checksum of an IP header. -/
def ipSum (B : Nat → UInt8) : Checksum :=
  let k := (Checksum.init.add (B 0)).add (B 1)
  let k := ((k.add16 (word16 (B 2) (B 3))).add16 (word16 (B 4) (B 5))).add16 (word16 (B 6) (B 7))
  let k := (k.add16 (word16 (B 8) (B 9))).add16 (word16 (B 10) (B 11))
  (k.add32 (word32 (B 12) (B 13) (B 14) (B 15))).add32 (word32 (B 16) (B 17) (B 18) (B 19))

theorem ipSum_sums (B : Nat → UInt8) : (ipSum B).Sums false (weight false (bytesFrom B 0 20)) := by
  have first := (Checksum.sums_init.add (B 0)).add (B 1)
  have fields := sums_add16 (sums_add16 (sums_add16 first (B 2) (B 3)) (B 4) (B 5)) (B 6) (B 7)
  have checksum := sums_add16 (sums_add16 fields (B 8) (B 9)) (B 10) (B 11)
  have sums := sums_add32 (sums_add32 checksum (B 12) (B 13) (B 14) (B 15)) (B 16) (B 17) (B 18) (B 19)
  have bytes : bytesFrom B 0 20 = [B 0, B 1, B 2, B 3, B 4, B 5, B 6, B 7, B 8, B 9, B 10, B 11,
      B 12, B 13, B 14, B 15, B 16, B 17, B 18, B 19] := rfl
  refine ⟨sums.flip, sums.value.trans ?_⟩
  rw [bytes]
  simp only [weight, Bool.not_false]
  ring

theorem ipSum_positive (version : B 0 = 0x45) : (ipSum B).Positive := by
  have first : (Checksum.init.add (B 0)).Positive := by
    rw [version]
    exact (by decide : 0 < 0x45 + 0 + 0)
  exact (((((((first.add _).add16 _).add16 _).add16 _).add16 _).add16 _).add32 _).add32 _

/-- All words are read of a packet that is no fragment; their sum, which stays folded, is left to check. -/
theorem ipHeader_words {x : Option IpHeader} {k' : Checksum} (version : B 0 = 0x45)
    (flags : ¬ ((word16 (B 6) (B 7) >>> 8).toUInt8 &&& 0x20 ≠ 0
      ∨ (word16 (B 6) (B 7) >>> 8).toUInt8 &&& 0x1f ≠ 0))
    (offset : (word16 (B 6) (B 7)).toUInt8 = 0)
    (check : ∀ summed : Checksum, summed = ipSum B →
      Reads src dry last summed.finish
        (Reading.check (summed.finish.current = 0xffff) >>= fun _ => pure {
          packetLength := word16 (B 2) (B 3) - 20
          protocol := (word16 (B 8) (B 9)).toUInt8
          srcAddr := word32 (B 12) (B 13) (B 14) (B 15)
        }) [] x k')
    : Reads src dry last k (ipHeader src) (bytesFrom B 0 20) x k' :=
  (Reads.modify k _).bind ((getc_reads (B 0)).bind ((Reads.check_true _ version).bind
    ((getc_reads (B 1)).bind ((getc16_reads (B 2) (B 3)).bind ((getc16_reads (B 4) (B 5)).bind
    ((getc16_reads (B 6) (B 7)).bind ((Reads.check_true _ flags).bind
    ((Reads.check_true _ offset).bind ((getc16_reads (B 8) (B 9)).bind
    ((getc16_reads (B 10) (B 11)).bind ((getc32_reads (B 12) (B 13) (B 14) (B 15)).bind
    ((getc32_reads (B 16) (B 17) (B 18) (B 19)).bind (checksumEnd_reads.bind (check _ rfl))))))))))))))

/-- The header of a packet that is no fragment is summed, and dropped when the sum is wrong. -/
theorem ipHeader_checked (version : B 0 = 0x45) (whole : ¬ IsFragment B)
    : Reads src dry last k (ipHeader src) (bytesFrom B 0 20)
        (if sum (bytesFrom B 0 20) = 0xffff then some (ipFields B) else none) (ipSum B).finish := by
  have flags : ¬ ((word16 (B 6) (B 7) >>> 8).toUInt8 &&& 0x20 ≠ 0
      ∨ (word16 (B 6) (B 7) >>> 8).toUInt8 &&& 0x1f ≠ 0) := by
    rw [word16_high]
    rintro (more | high)
    · exact whole (.inl more)
    · exact whole (.inr (.inl high))
  have offset : (word16 (B 6) (B 7)).toUInt8 = 0 := by
    rw [word16_low]
    by_contra low
    exact whole (.inr (.inr low))
  have total : sum (bytesFrom B 0 20) = 0xffff ↔ (ipSum B).finish.current = 0xffff := by
    rw [(ipSum_sums B).current_eq_ones (ipSum_positive version)]
    constructor
    · intro ones
      rw [← cast_sum, ones]
      rfl
    · exact fun zero => sum_eq_ones zero ⟨B 0, List.mem_cons_self, by rw [version]; decide⟩
  refine ipHeader_words version flags offset ?_
  rintro _ rfl
  rw [word16_low]
  split
  case isTrue valid => exact (Reads.check_true _ (total.mp valid)).bind (.pure _ _)
  case isFalse invalid => exact Reads.bind_none (Reads.check_false _ (mt total.mpr invalid))

end Ip

--------------------------------------------------
-- The TCP header
--------------------------------------------------

section Tcp

/-- Bytes in two parts. -/
theorem bytesFrom_add (B : Nat → UInt8) (i n m : Nat)
    : bytesFrom B i (n + m) = bytesFrom B i n ++ bytesFrom B (i + n) m := by
  rw [bytesFrom, ← List.range'_append_1, List.map_append]
  rfl

theorem length_bytesFrom (B : Nat → UInt8) (i n : Nat) : (bytesFrom B i n).length = n := by
  simp [bytesFrom]

/-- `tcp_header_length` before the options are read. -/
def headerLength (B : Nat → UInt8) : UInt8 := (B 32 >>> 4) * 4

/-- The bytes that are read as options. -/
def optionsLength (B : Nat → UInt8) : Nat := (headerLength B - 20).toNat

/-- The MSS of the options, wherever it is. -/
def optionsMss (p : Program) (B : Nat → UInt8) (c : HttpConnection) : HttpConnection :=
  if 4 ≤ headerLength B - 20 then
    let mss := word16 (B 42) (B 43)
    { c with tcpMss := (if p.maxMss < mss then p.maxMss else mss) % 0x1000 }
  else c

/-- The locals behind a TCP header. -/
def tcpFields (p : Program) (s : Server) (B : Nat → UInt8) : Incoming :=
  let i := incoming p s (ipFields B) (word16 (B 20) (B 21))
    (word32 (B 24) (B 25) (B 26) (B 27)) (word32 (B 28) (B 29) (B 30) (B 31)) (headerLength B) (B 33)
  { i with connection := optionsMss p B { i.connection with cwnd := word16 (B 34) (B 35) } }

/-- What is summed of the pseudo-header before the protocol is accounted for. -/
def pseudoWeight (p : Program) (B : Nat → UInt8) : ZMod 65535 :=
  weight false (Output.bytes32 p.localIpAddr) + weight false [B 12, B 13, B 14, B 15]
    + ((ipFields B).packetLength.toNat : ZMod 65535)

theorem optionsLength_mod (B : Nat → UInt8) : optionsLength B % 4 = 0 := by
  have := (B 32).toNat_lt
  simp only [optionsLength, headerLength, UInt8.toNat_sub, UInt8.toNat_mul, UInt8.toNat_shiftRight,
    UInt8.reduceToNat, Nat.reduceMod, Nat.shiftRight_eq_div_pow, Nat.reducePow]
  omega

variable {σ : Type} {src : Source σ} {dry last : σ → Prop} {B : Nat → UInt8} {k : Checksum}
  {p : Program} {s : Server}

/-- The options are summed. -/
theorem tcpOptions_reads (c : HttpConnection)
    : ∃ k', Reads src dry last k (tcpOptions src p (headerLength B - 20) c)
          (bytesFrom B 40 (optionsLength B)) (some (optionsMss p B c)) k'
        ∧ ∀ v, k.Sums false v → k'.Sums false (v + weight false (bytesFrom B 40 (optionsLength B))) := by
  have words := optionsLength_mod B
  rw [tcpOptions, optionsMss]
  split
  case isTrue long =>
    have length : (headerLength B - 20 - 4).toNat = optionsLength B - 4 :=
      UInt8.toNat_sub_of_le _ _ long
    have four : 4 ≤ optionsLength B := UInt8.le_iff_toNat_le.mp long
    have split : bytesFrom B 40 (optionsLength B)
        = [B 40, B 41, B 42, B 43] ++ bytesFrom B 44 (optionsLength B - 4) := by
      conv_lhs => rw [← Nat.add_sub_cancel' four, bytesFrom_add]
      rfl
    have multiple : (bytesFrom B 44 (optionsLength B - 4)).length
        = (headerLength B - 20 - 4).toNat / 4 * 4 := by
      rw [length_bytesFrom, length]
      omega
    obtain ⟨k', reads, sums⟩ : ∃ k', Reads src dry last
        ((k.add16 (word16 (B 40) (B 41))).add16 (word16 (B 42) (B 43)))
        (skipWords src ((headerLength B - 20 - 4).toNat / 4))
        (bytesFrom B 44 (optionsLength B - 4)) (some ()) k' ∧ _ := skipWords_reads multiple
    rw [split]
    refine ⟨k', (getc16_reads (B 40) (B 41)).bind ((getc16_reads (B 42) (B 43)).bind
      reads.bind_pure), fun v start => ?_⟩
    have after := sums _ (sums_add16 (sums_add16 start (B 40) (B 41)) (B 42) (B 43))
    refine ⟨after.flip, after.value.trans ?_⟩
    rw [add_assoc, add_assoc]
    exact congrArg _ ((weight_two _ _ _).trans (congrArg _ (weight_two _ _ _))).symm
  case isFalse short =>
    have multiple : (bytesFrom B 40 (optionsLength B)).length = (headerLength B - 20).toNat / 4 * 4 := by
      rw [length_bytesFrom]
      exact (Nat.div_mul_cancel (Nat.dvd_of_mod_eq_zero words)).symm
    obtain ⟨k', reads, sums⟩ := skipWords_reads multiple
    exact ⟨k', reads.bind_pure, sums⟩

theorem word16_mod (a b : UInt8) : word16 a b % 256 = 80 ↔ b = 80 := by
  have := b.toNat_lt
  rw [← UInt16.toNat_inj, ← UInt8.toNat_inj, UInt16.toNat_mod, word16_toNat]
  simp only [UInt16.reduceToNat, UInt8.reduceToNat]
  omega

/-- Four bytes are read of a segment to another port. -/
theorem tcpHeader_port (ip : IpHeader) (port : B 23 ≠ 80)
    : ∃ k', Reads src dry last k (tcpHeader src p s ip) (bytesFrom B 20 4) none k' :=
  ⟨_, (Reads.modify k _).bind ((getc16_reads (B 20) (B 21)).bind ((getc16_reads (B 22) (B 23)).bind
    (Reads.bind_none (Reads.check_false _ (mt (word16_mod _ _).mp port)))))⟩

/-- The checksum of a TCP header and the pseudo-header, before the options. -/
def tcpSum (p : Program) (B : Nat → UInt8) : Checksum :=
  let k := (Checksum.init.add16 (word16 (B 20) (B 21))).add16 (word16 (B 22) (B 23))
  let k := (k.add32 (word32 (B 24) (B 25) (B 26) (B 27))).add32 (word32 (B 28) (B 29) (B 30) (B 31))
  let k := (k.add16 (word16 (B 32) (B 33))).add16 (word16 (B 34) (B 35))
  let k := k.add32 (word32 (B 36) (B 37) (B 38) (B 39))
  ((k.add32 p.localIpAddr).add32 (ipFields B).srcAddr).add16 (ipFields B).packetLength

theorem tcpSum_sums (p : Program) (B : Nat → UInt8)
    : (tcpSum p B).Sums false (pseudoWeight p B + weight false (bytesFrom B 20 20)) := by
  have ports := sums_add16 (sums_add16 Checksum.sums_init (B 20) (B 21)) (B 22) (B 23)
  have numbers := sums_add32 (sums_add32 ports (B 24) (B 25) (B 26) (B 27)) (B 28) (B 29) (B 30) (B 31)
  have flags := sums_add16 (sums_add16 numbers (B 32) (B 33)) (B 34) (B 35)
  have urgent := sums_add32 flags (B 36) (B 37) (B 38) (B 39)
  have pseudo := (sums_add32 (urgent.add32 p.localIpAddr) (B 12) (B 13) (B 14) (B 15)).add16
    (ipFields B).packetLength
  have bytes : bytesFrom B 20 20 = [B 20, B 21, B 22, B 23, B 24, B 25, B 26, B 27, B 28, B 29,
      B 30, B 31, B 32, B 33, B 34, B 35, B 36, B 37, B 38, B 39] := rfl
  refine ⟨pseudo.flip, pseudo.value.trans ?_⟩
  rw [bytes, pseudoWeight, Output.bytes32]
  simp only [weight]
  ring

/-- The header of a segment is summed, with its options and the pseudo-header. -/
theorem tcpHeader_reads (port : B 23 = 80)
    : ∃ k', Reads src dry last k (tcpHeader src p s (ipFields B))
          (bytesFrom B 20 (20 + optionsLength B)) (some (tcpFields p s B)) k'
        ∧ k'.Sums false (pseudoWeight p B + weight false (bytesFrom B 20 (20 + optionsLength B))) := by
  have read (length flags : UInt8) (length_eq : length = headerLength B) (flags_eq : flags = B 33)
      : ∃ k', Reads src dry last (tcpSum p B) (do
            let i := incoming p s (ipFields B) (word16 (B 20) (B 21))
              (word32 (B 24) (B 25) (B 26) (B 27)) (word32 (B 28) (B 29) (B 30) (B 31)) length flags
            let connection ← tcpOptions src p (length - 20)
              { i.connection with cwnd := word16 (B 34) (B 35) }
            pure { i with connection })
            (bytesFrom B 40 (optionsLength B)) (some (tcpFields p s B)) k'
          ∧ ∀ v, (tcpSum p B).Sums false v →
              k'.Sums false (v + weight false (bytesFrom B 40 (optionsLength B))) := by
    subst length_eq flags_eq
    obtain ⟨k', reads, sums⟩ := tcpOptions_reads _
    exact ⟨k', reads.bind_pure, sums⟩
  have length : ((word16 (B 32) (B 33) >>> 8).toUInt8 >>> 4) * 4 = headerLength B := by
    rw [word16_high, headerLength]
  obtain ⟨k', reads, sums⟩ := read _ _ length (word16_low _ _)
  refine ⟨k', ?_, ?_⟩
  · rw [bytesFrom_add]
    exact (Reads.modify k _).bind ((getc16_reads (B 20) (B 21)).bind
      ((getc16_reads (B 22) (B 23)).bind ((Reads.check_true _ ((word16_mod _ _).mpr port)).bind
      ((getc32_reads (B 24) (B 25) (B 26) (B 27)).bind ((getc32_reads (B 28) (B 29) (B 30) (B 31)).bind
      ((getc16_reads (B 32) (B 33)).bind ((getc16_reads (B 34) (B 35)).bind
      ((getc32_reads (B 36) (B 37) (B 38) (B 39)).bind ((Reads.modify _ _).bind
      ((Reads.modify _ _).bind ((Reads.modify _ _).bind reads)))))))))))
  · have even : (bytesFrom B 20 20).length % 2 = 0 := by rw [length_bytesFrom]
    rw [bytesFrom_add, weight_append_even even, ← add_assoc]
    exact sums _ (tcpSum_sums p B)

end Tcp

--------------------------------------------------
-- The data
--------------------------------------------------

section Data

/-- What the data of a segment does, as a list. -/
def dataPending (p : Program) (i : Incoming) (heap : Heap) (bytes : List UInt8)
    : Option (Pending ⊕ Heap) := do
  let c := i.connection
  if i.Parsed then
    match ← Input.parseSegment p c.request heap c.outputHandler bytes with
    | .parsed o => some (.inl (pending i (afterParsing p i.segment.ackno c o) o.heap))
    | .returned heap => some (.inr heap)
  else
    some (.inl (pending i c heap))

/-- The data that a failed `cr_prepare` leaves behind. -/
def abandonedData (p : Program) (i : Incoming) (heap : Heap) (bytes : List UInt8) : List UInt8 :=
  if i.Parsed then
    match startSegment p i.connection.request heap i.connection.outputHandler with
    | some s => abandoned p (3 * bytes.length + 3) s bytes
    | none => []
  else []

/-- Bytes are left behind only by a `return`, by induction on the turns. -/
theorem parseLoop_abandoned {p : Program} {fuel : Nat} {s : Parse} {rest : List UInt8}
    (left : abandoned p fuel s rest ≠ [])
    : ∃ s', Input.parseLoop p fuel s rest = some (.quit s') := by
  induction fuel generalizing s rest with
  | zero => exact absurd rfl left
  | succ fuel ih =>
      rw [abandoned] at left
      rw [Input.parseLoop]
      split at left
      case isFalse => exact absurd rfl left
      case isTrue goes =>
        rw [if_pos goes]
        split at left
        case h_1 s' rest' turned =>
          rw [turned]
          exact ih left
        case h_2 s' rest' turned =>
          rw [turned]
          exact ⟨s', rfl⟩
        case h_3 => exact absurd rfl left

theorem dataPending_abandoned {p : Program} {i : Incoming} {heap : Heap} {bytes : List UInt8}
    (left : abandonedData p i heap bytes ≠ [])
    : ∃ heap', dataPending p i heap bytes = some (.inr heap') := by
  rw [abandonedData] at left
  rw [dataPending]
  split at left
  case isFalse => exact absurd rfl left
  case isTrue parsed =>
    split at left
    case h_2 => exact absurd rfl left
    case h_1 s start =>
      obtain ⟨s', quit⟩ := parseLoop_abandoned left
      refine ⟨s'.heap, ?_⟩
      simp only [if_pos parsed, Input.parseSegment, start, quit, Option.bind_eq_bind, Option.bind_some]

variable {σ : Type} {src : Source σ} {dry last : σ → Prop} {total : Checksum}

/-- The same end of the data of a segment. -/
inductive DataAlike (src : Source σ) (dry last : σ → Prop) (total : Checksum) (left : List UInt8)
    : Pending ⊕ Heap → (Pending ⊕ Heap) × Reader σ Checksum → Prop
  | waits {d : Pending} {r : Reader σ Checksum} (ahead : Ahead src dry last total r [])
    : DataAlike src dry last total left (.inl d) (.inl d, r)
  | returned {heap : Heap} {r : Reader σ Checksum} (ahead : Ahead src dry last total r left)
    : DataAlike src dry last total left (.inr heap) (.inr heap, r)

variable (stays : StaysDry src dry)
include stays

omit stays in
/-- All the bytes left are dropped. -/
theorem dropData_follows {i : Incoming} {x : UInt16} {c : HttpConnection} {heap : Heap}
    {r : Reader σ Checksum} {rest left : List UInt8}
    (counted : x.toNat + rest.length = i.segmentLength.toNat)
    (ahead : Ahead src dry last total r rest)
    : Follows (∃ d, dry d) (DataAlike src dry last total left) (fun y => dry y.2.source)
        (some (.inl (pending i c heap))) (some (dropData src i x c heap r)) := by
  have count : i.segmentLength.toNat - x.toNat = rest.length := by omega
  have delivers := ahead.delivers
  rw [← List.append_nil rest] at delivers
  rw [dropData, count]
  obtain ⟨d', ran, delivers⟩ | ⟨r', ran, isDry⟩ := skip_reads (k := r.state) rest r.source [] delivers
  · rw [ran]
    exact .related (.waits ⟨delivers, ahead.sums⟩)
  · rw [ran]
    exact .escaped ⟨_, isDry⟩ (.some isDry)

theorem receiveData_follows {p : Program} {i : Incoming} {heap : Heap} {r : Reader σ Checksum}
    {bytes : List UInt8} (length : bytes.length = i.segmentLength.toNat)
    (ahead : Ahead src dry last total r bytes)
    : Follows (∃ d, dry d) (DataAlike src dry last total (abandonedData p i heap bytes))
        (fun y => dry y.2.source) (dataPending p i heap bytes) (receiveData src p i heap r) := by
  rw [dataPending, receiveData, abandonedData]
  split
  case isTrue parsed =>
    generalize abandoning : (match startSegment p i.connection.request heap
      i.connection.outputHandler with
      | some s => abandoned p (3 * bytes.length + 3) s bytes
      | none => []) = left
    have quits (s : Parse) (start : startSegment p i.connection.request heap
        i.connection.outputHandler = some s)
        : abandoned p (3 * bytes.length + 3) s bytes = left := by
      rw [start] at abandoning
      exact abandoning
    refine (parseSegment_follows stays length ahead quits).bind ?_ ?_
    · rintro _ _ (⟨counted, ahead⟩ | ahead)
      · exact dropData_follows counted ahead
      · exact .related (.returned ahead)
    · rintro ⟨⟨x, o⟩ | heap, r⟩ isDry
      · exact .some (dropData_keeps (dry_kept stays) isDry)
      · exact .some isDry
  case isFalse =>
    refine dropData_follows ?_ ahead
    simp [length]

end Data

--------------------------------------------------
-- Segments
--------------------------------------------------

section Segments

/-- `segment_length`. -/
def dataLength (B : Nat → UInt8) : UInt16 := (ipFields B).packetLength - (headerLength B).toUInt16

/-- The data of a segment. -/
def dataBytes (B : Nat → UInt8) : List UInt8 :=
  bytesFrom B (40 + optionsLength B) (dataLength B).toNat

/-- A segment, as far as it is read. -/
def segmentBytes (B : Nat → UInt8) : List UInt8 :=
  bytesFrom B 20 (20 + optionsLength B + (dataLength B).toNat)

/-- The pseudo-header of a received segment: its source address, `local_ip_addr`, its protocol and
its length.
-/
def pseudoHeader (p : Program) (B : Nat → UInt8) : List UInt8 :=
  [B 12, B 13, B 14, B 15] ++ Output.bytes32 p.localIpAddr ++ [0, 6]
    ++ Output.bytes16 (ipFields B).packetLength

/-- What a segment does to the server. -/
def receivedSegment (p : Program) (s : Server) (B : Nat → UInt8) : Option Server := do
  let i := tcpFields p s B
  match ← dataPending p i s.heap (dataBytes B) with
  | .inr heap => some { s with heap }
  | .inl d =>
      let s := { s with heap := d.heap }
      if sum (pseudoHeader p B ++ segmentBytes B) = 0xffff then commit p i.segment i.index d s
      else some s

/-- The data that a failed `cr_prepare` leaves behind. -/
def leftBehind (p : Program) (s : Server) (B : Nat → UInt8) : List UInt8 :=
  abandonedData p (tcpFields p s B) s.heap (dataBytes B)

/-- The source and the checksum behind a segment that was not left behind. -/
structure Summed (p : Program) (B : Nat → UInt8) {σ : Type} (last : σ → Prop)
    (r : Reader σ Checksum)
    : Prop where
  source : last r.source
  sums : r.state.value = pseudoWeight p B + weight false (segmentBytes B)

variable {σ : Type} {src : Source σ} {dry last : σ → Prop} {B : Nat → UInt8} {k : Checksum}
  {p : Program} {s : Server}

theorem segmentBytes_eq (B : Nat → UInt8)
    : segmentBytes B = bytesFrom B 20 (20 + optionsLength B) ++ dataBytes B := by
  rw [segmentBytes, bytesFrom_add, dataBytes, ← Nat.add_assoc]

/-- The checksum of a segment is the constant part when the sum with the pseudo-header is
`0xffff`.
-/
theorem segment_valid {odd : Bool} (sums : k.Sums odd (pseudoWeight p B + weight false (segmentBytes B)))
    : k.finish.current = ~~~ 6 ↔ sum (pseudoHeader p B ++ segmentBytes B) = 0xffff := by
  have weighs : weight false (pseudoHeader p B ++ segmentBytes B)
      = pseudoWeight p B + weight false (segmentBytes B) + 6 := by
    have even : (pseudoHeader p B).length % 2 = 0 := by
      simp [pseudoHeader, Output.bytes32, Output.bytes16]
    have length := Output.weight_bytes16 (ipFields B).packetLength []
    rw [List.append_nil] at length
    rw [weight_append_even even, pseudoHeader, pseudoWeight, List.append_assoc, List.append_assoc,
      List.cons_append, List.cons_append, List.cons_append, List.cons_append, weight_four,
      List.nil_append, Output.weight_bytes32, List.cons_append, List.cons_append,
      weight_two 0 6, List.nil_append, length]
    simp only [weight]
    push_cast
    ring
  have valid : sum (pseudoHeader p B ++ segmentBytes B) = 0xffff
      ↔ weight false (pseudoHeader p B ++ segmentBytes B) = 0 := by
    constructor
    · intro ones
      rw [← cast_sum, ones]
      rfl
    · exact fun zero => sum_eq_ones zero ⟨6, by simp [pseudoHeader], by decide⟩
  have current := sums.current
  have bound := k.finish.current.toNat_lt
  rw [valid, weighs, ← current, ← UInt16.toNat_inj]
  have cast : (k.finish.current.toNat : ZMod 65535) + 6 = ((k.finish.current.toNat + 6 : Nat) : ZMod 65535) := by
    push_cast
    rfl
  rw [cast, ZMod.natCast_eq_zero_iff]
  change k.finish.current.toNat = 65529 ↔ _
  omega

/-- A segment is read and summed to its end, unless it is left behind. -/
theorem receiveSegment_follows (stays : StaysDry src dry) (port : B 23 = 80) {r : Reader σ Checksum}
    (delivers : Delivers src dry last r.source (segmentBytes B))
    : Follows (∃ d, dry d)
        (fun s' y => y.1 = s' ∧ (leftBehind p s B = [] → Summed p B last y.2))
        (fun y => dry y.2.source) (receivedSegment p s B)
        (receiveSegment src p s (ipFields B) r) := by
  obtain ⟨k', reads, sums⟩ : ∃ k', Reads src dry last r.state (tcpHeader src p s (ipFields B))
    (bytesFrom B 20 (20 + optionsLength B)) (some (tcpFields p s B)) k' ∧ _ := tcpHeader_reads port
  rw [segmentBytes_eq] at delivers
  have summed := sums.addBytes (dataBytes B)
  have even : (bytesFrom B 20 (20 + optionsLength B)).length % 2 = 0 := by
    have := optionsLength_mod B
    rw [length_bytesFrom]
    omega
  have value : (k'.addBytes (dataBytes B)).value = pseudoWeight p B + weight false (segmentBytes B) := by
    rw [summed.value, segmentBytes_eq, weight_append_even even, add_assoc]
  rw [receiveSegment]
  obtain ⟨d', ran, delivers⟩ | ⟨r', ran, isDry⟩ := reads r.source (dataBytes B) delivers
  · rw [ran, receivedSegment]
    have length : (dataBytes B).length = (tcpFields p s B).segmentLength.toNat :=
      length_bytesFrom B _ _
    refine (receiveData_follows stays length ⟨delivers, rfl⟩).bind ?_ ?_
    · rintro _ _ (ahead | ahead)
      case waits d r =>
        have total : r.state = k'.addBytes (dataBytes B) := ahead.sums
        rw [← total] at summed value
        have finished : Summed p B last { r with state := r.state.finish } :=
          ⟨ahead.delivers, (summed.endRounds 3).trans (summed.value.symm.trans value)⟩
        have valid := segment_valid ⟨summed.flip, value⟩
        dsimp only [checkSegment]
        simp only [valid]
        split
        · cases commit p (tcpFields p s B).segment (tcpFields p s B).index d
            { s with heap := d.heap } with
          | none => exact .undefined
          | some s' => exact .related ⟨rfl, fun _ => finished⟩
        · exact .related ⟨rfl, fun _ => finished⟩
      case returned heap r =>
        refine .related ⟨rfl, fun complete => ?_⟩
        have ahead : Ahead src dry last _ r (leftBehind p s B) := ahead
        rw [complete] at ahead
        refine ⟨ahead.delivers, ?_⟩
        rw [← value]
        exact congrArg Checksum.value ahead.sums
    · rintro ⟨d | heap, r⟩ isDry
      · exact .ite (fun _ => .map fun _ _ => isDry) fun _ => .some isDry
      · exact .some isDry
  · rw [ran]
    exact .escaped ⟨_, isDry⟩ (.some isDry)

end Segments

--------------------------------------------------
-- Packets
--------------------------------------------------

section Packets

/-- What a packet of another protocol does to the server. -/
def receivedGpIp (p : Program) (s : Server) (B : Nat → UInt8) : Option Server :=
  smewsReceiveGpIp p (ipFields B).srcAddr (B 9)
    (if readsPayload p s (ipFields B) then bytesFrom B 20 (ipFields B).packetLength.toNat else []) s

/-- Whether the headers of a packet are accepted up to the protocol. -/
def HeaderValid (B : Nat → UInt8) : Prop :=
  B 0 = 0x45 ∧ ¬ IsFragment B ∧ sum (bytesFrom B 0 20) = 0xffff

instance (B : Nat → UInt8) : Decidable (HeaderValid B) := by
  unfold HeaderValid
  infer_instance

/-- Whether a packet is a segment for the server. -/
def IsSegment (B : Nat → UInt8) : Prop := HeaderValid B ∧ B 9 = 6 ∧ B 23 = 80

instance (B : Nat → UInt8) : Decidable (IsSegment B) := by
  unfold IsSegment
  infer_instance

/-- What a packet does to the server. -/
def receivedPacket (p : Program) (s : Server) (B : Nat → UInt8) : Option Server :=
  if HeaderValid B then
    if B 9 = 6 then if B 23 = 80 then receivedSegment p s B else some s
    else receivedGpIp p s B
  else some s

/-- The bytes that are read of a packet, unless some are left behind. -/
def bytesRead (p : Program) (s : Server) (B : Nat → UInt8) : Nat :=
  if B 0 ≠ 0x45 then 1
  else if IsFragment B then 8
  else if sum (bytesFrom B 0 20) ≠ 0xffff then 20
  else if B 9 = 6 then if B 23 = 80 then 40 + optionsLength B + (dataLength B).toNat else 24
  else if readsPayload p s (ipFields B) then 20 + (ipFields B).packetLength.toNat
  else 20

variable {σ : Type} {src : Source σ} {dry last : σ → Prop} {B : Nat → UInt8} {k : Checksum}
  {p : Program} {s : Server}

/-- The payload of a packet is read to its end, by induction on it. -/
theorem payload_reads (stays : StaysDry src dry) {bytes : List UInt8} {r : Reader σ Checksum}
    (delivers : Delivers src dry last r.source bytes)
    : (∃ r', payload src bytes.length r = (bytes, r') ∧ last r'.source)
      ∨ (∃ d, dry d) ∧ dry (payload src bytes.length r).2.source := by
  have kept (n : Nat) {r : Reader σ Checksum} (isDry : dry r.source)
      : dry (payload src n r).2.source := by
    induction n generalizing r with
    | zero => exact isDry
    | succ n ih => exact ih (r := ⟨(src.get r.source).2, r.state⟩) (dry_kept stays _ isDry)
  induction bytes generalizing r with
  | nil => exact .inl ⟨r, rfl, delivers⟩
  | cons b bytes ih =>
      rw [List.length_cons, payload, Reading.byte_apply]
      obtain ⟨d', got, delivers⟩ | ⟨d', got, isDry⟩ := delivers.cons
      · obtain ⟨r', ran, atLast⟩ | escaped := ih (r := ⟨d', r.state⟩) delivers
        · left
          exact ⟨r', by simp [got, ran], atLast⟩
        · right
          simpa [got] using escaped
      · right
        refine ⟨⟨d', isDry⟩, ?_⟩
        simpa [got] using kept bytes.length (r := ⟨d', r.state⟩) isDry

/-- The source behind a packet, and the checksum when it is a segment. -/
structure Consumed (p : Program) (B : Nat → UInt8) {σ : Type} (last : σ → Prop)
    (r : Reader σ Checksum)
    : Prop where
  source : last r.source
  sums : IsSegment B → r.state.value = pseudoWeight p B + weight false (segmentBytes B)

/-- Nothing of a packet is left behind by a failed `cr_prepare`. -/
def Complete (p : Program) (s : Server) (B : Nat → UInt8) : Prop :=
  IsSegment B → leftBehind p s B = []

theorem receiveGpIp_follows (stays : StaysDry src dry) {r : Reader σ Checksum} {ip : IpHeader}
    (same : ip = ipFields B)
    (delivers : Delivers src dry last r.source
      (if readsPayload p s ip then bytesFrom B 20 ip.packetLength.toNat else []))
    : Follows (∃ d, dry d) (fun s' y => y.1 = s' ∧ last y.2.source) (fun y => dry y.2.source)
        (receivedGpIp p s B) (receiveGpIp src p s ip r) := by
  subst same
  rw [receivedGpIp, receiveGpIp]
  split at delivers
  case isTrue reads =>
    have length := length_bytesFrom B 20 (ipFields B).packetLength.toNat
    rw [if_pos reads, if_pos reads]
    conv => rhs; rw [← length]
    obtain ⟨r', ran, atLast⟩ | ⟨possible, isDry⟩ := payload_reads stays delivers
    · rw [ran]
      change Follows _ _ _ _ ((smewsReceiveGpIp p (ipFields B).srcAddr (B 9) _ s).map _)
      cases smewsReceiveGpIp p (ipFields B).srcAddr (B 9)
        (bytesFrom B 20 (ipFields B).packetLength.toNat) s with
      | none => exact .undefined
      | some s' => exact .related ⟨rfl, atLast⟩
    · exact .escaped possible (.map fun _ _ => isDry)
  case isFalse skips =>
    rw [if_neg skips, if_neg skips]
    change Follows _ _ _ _ ((smewsReceiveGpIp p (ipFields B).srcAddr (B 9) [] s).map _)
    cases smewsReceiveGpIp p (ipFields B).srcAddr (B 9) [] s with
    | none => exact .undefined
    | some s' => exact .related ⟨rfl, delivers⟩

/-- A packet whose header is not accepted is read up to the test that it fails. -/
theorem smewsReceive_rejected (rejected : ¬ HeaderValid B) {r : Reader σ Checksum}
    (delivers : Delivers src dry last r.source (bytesFrom B 0 (bytesRead p s B)))
    : Follows (∃ d, dry d) (fun s' y => y.1 = s' ∧ last y.2.source) (fun y => dry y.2.source)
        (some s) (smewsReceive src p s r) := by
  have stops {bytes : List UInt8} (stops : ∃ k', Reads src dry last r.state (ipHeader src) bytes none k')
      (delivers : Delivers src dry last r.source bytes)
      : Follows (∃ d, dry d) (fun s' y => y.1 = s' ∧ last y.2.source) (fun y => dry y.2.source)
          (some s) (smewsReceive src p s r) := by
    obtain ⟨k', reads⟩ := stops
    rw [← List.append_nil bytes] at delivers
    rw [smewsReceive]
    obtain ⟨d', ran, delivers⟩ | ⟨r', ran, isDry⟩ := reads r.source [] delivers
    · rw [ran]
      exact .related ⟨rfl, delivers⟩
    · rw [ran]
      exact .escaped ⟨_, isDry⟩ (.some isDry)
  rw [bytesRead] at delivers
  by_cases version : B 0 = 0x45
  · rw [if_neg (not_not.mpr version)] at delivers
    by_cases fragment : IsFragment B
    · rw [if_pos fragment] at delivers
      exact stops (ipHeader_fragment version fragment) delivers
    · have invalid : sum (bytesFrom B 0 20) ≠ 0xffff :=
        fun valid => rejected ⟨version, fragment, valid⟩
      rw [if_neg fragment, if_pos invalid] at delivers
      have reads : Reads src dry last r.state (ipHeader src) (bytesFrom B 0 20) _ _ :=
        ipHeader_checked version fragment
      rw [if_neg invalid] at reads
      exact stops ⟨_, reads⟩ delivers
  · rw [if_pos version] at delivers
    exact stops (ipHeader_version version) delivers

/-- A packet is read to its end, unless data is left behind, and does to the server what its bytes
say.
-/
theorem smewsReceive_follows (stays : StaysDry src dry) {r : Reader σ Checksum}
    (delivers : Delivers src dry last r.source (bytesFrom B 0 (bytesRead p s B)))
    : Follows (∃ d, dry d) (fun s' y => y.1 = s' ∧ (Complete p s B → Consumed p B last y.2))
        (fun y => dry y.2.source) (receivedPacket p s B) (smewsReceive src p s r) := by
  by_cases valid : HeaderValid B
  case neg =>
    rw [receivedPacket, if_neg valid]
    exact (smewsReceive_rejected valid delivers).imp fun s' y ⟨same, atLast⟩ =>
      ⟨same, fun _ => ⟨atLast, fun segment => absurd segment.1 valid⟩⟩
  obtain ⟨version, whole, ones⟩ := valid
  have reads : Reads src dry last r.state (ipHeader src) (bytesFrom B 0 20) (some (ipFields B))
      (ipSum B).finish := by
    have reads : Reads src dry last r.state (ipHeader src) (bytesFrom B 0 20) _ _ :=
      ipHeader_checked version whole
    rwa [if_pos ones] at reads
  have length : bytesRead p s B = 20 + (bytesRead p s B - 20) := by
    rw [bytesRead, if_neg (not_not.mpr version), if_neg whole, if_neg (not_not.mpr ones)]
    split
    · split <;> omega
    · split <;> omega
  rw [length, bytesFrom_add, Nat.zero_add] at delivers
  rw [receivedPacket, if_pos ⟨version, whole, ones⟩, smewsReceive]
  obtain ⟨d', ran, delivers⟩ | ⟨r', ran, isDry⟩ := reads r.source _ delivers
  case inr =>
    rw [ran]
    exact .escaped ⟨_, isDry⟩ (.some isDry)
  rw [ran]
  dsimp only
  rw [bytesRead, if_neg (not_not.mpr version), if_neg whole, if_neg (not_not.mpr ones)] at delivers
  have protocol : (ipFields B).protocol = B 9 := rfl
  rw [protocol]
  split
  case isTrue tcp =>
    rw [if_pos tcp] at delivers
    split
    case isTrue port =>
      have rest : 40 + optionsLength B + (dataLength B).toNat - 20
          = 20 + optionsLength B + (dataLength B).toNat := by omega
      rw [if_pos port, rest] at delivers
      refine (receiveSegment_follows stays port delivers).imp fun s' y ⟨same, summed⟩ => ?_
      refine ⟨same, fun complete => ?_⟩
      obtain ⟨source, sums⟩ := summed (complete ⟨⟨version, whole, ones⟩, tcp, port⟩)
      exact ⟨source, fun _ => sums⟩
    case isFalse port =>
      rw [if_neg port] at delivers
      obtain ⟨k', stops⟩ : ∃ k', Reads src dry last (ipSum B).finish
        (tcpHeader src p s (ipFields B)) (bytesFrom B 20 4) none k' := tcpHeader_port _ port
      have delivers : Delivers src dry last d' (bytesFrom B 20 4 ++ []) := delivers
      rw [receiveSegment]
      obtain ⟨d', ran, delivers⟩ | ⟨r', ran, isDry⟩ := stops d' [] delivers
      · rw [ran]
        exact .related ⟨rfl, fun _ => ⟨delivers, fun segment => absurd segment.2.2 port⟩⟩
      · rw [ran]
        exact .escaped ⟨_, isDry⟩ (.some isDry)
  case isFalse other =>
    rw [if_neg other] at delivers
    have payload : bytesFrom B 20 ((if readsPayload p s (ipFields B) then
        20 + (ipFields B).packetLength.toNat else 20) - 20)
        = if readsPayload p s (ipFields B) then bytesFrom B 20 (ipFields B).packetLength.toNat
          else [] := by
      split
      · rw [Nat.add_sub_cancel_left]
      · rfl
    rw [payload] at delivers
    refine (receiveGpIp_follows stays rfl delivers).imp fun s' y ⟨same, atLast⟩ => ?_
    exact ⟨same, fun _ => ⟨atLast, fun segment => absurd segment.2.1 other⟩⟩

end Packets

end Smews.Input.Device
