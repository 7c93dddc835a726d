import Smews.Input.DeviceReceive
import Smews.System.Steps

/-! Received TCP packets: all their bytes are read and summed, and they are accepted when their
checksum is right.
-/

namespace Smews.System

open Smews.Core Input Input.Device ByteSource Partial OnesComplement

--------------------------------------------------
-- Packets
--------------------------------------------------

/-- The bytes of a packet by their place. -/
def byteAt (bytes : List UInt8) (i : Nat) : UInt8 := bytes.getD i 0

/-- An IPv4 TCP packet to port 80 with a valid IP header of five words, that is no fragment and
whose data offset lies between five words and the length of its segment.
-/
structure TcpPacket where
  bytes : List UInt8
  version : byteAt bytes 0 = 0x45
  totalLength : (word16 (byteAt bytes 2) (byteAt bytes 3)).toNat = bytes.length
  whole : ¬ IsFragment (byteAt bytes)
  protocol : byteAt bytes 9 = 6
  headerSum : sum (bytes.take 20) = 0xffff
  port : word16 (byteAt bytes 22) (byteAt bytes 23) = 80
  offset_ge : 20 ≤ (headerLength (byteAt bytes)).toNat
  offset_le : 20 + (headerLength (byteAt bytes)).toNat ≤ bytes.length

namespace TcpPacket

variable (t : TcpPacket)

theorem length_lt : t.bytes.length < 65536 := by
  rw [← t.totalLength]
  exact UInt16.toNat_lt _

/-- The segment of a packet, valid when it sums to `0xffff` with its pseudo-header. -/
def segment (p : Program) : TcpSegment :=
  let b := byteAt t.bytes
  {
    srcAddr := word32 (b 12) (b 13) (b 14) (b 15)
    srcPort := word16 (b 20) (b 21)
    dstPort := word16 (b 22) (b 23)
    seqno := word32 (b 24) (b 25) (b 26) (b 27)
    ackno := word32 (b 28) (b 29) (b 30) (b 31)
    flags := b 33
    window := word16 (b 34) (b 35)
    options := (t.bytes.drop 40).take ((headerLength (byteAt t.bytes)).toNat - 20)
    payload := t.bytes.drop (20 + (headerLength (byteAt t.bytes)).toNat)
    checksumValid := sum (pseudoHeader p (byteAt t.bytes) ++ t.bytes.drop 20) = 0xffff
    fits := by
      have := t.length_lt
      have := t.offset_le
      have := t.offset_ge
      simp only [List.length_take, List.length_drop]
      omega
  }

end TcpPacket

/-- Bytes of a list by their places. -/
theorem bytesFrom_byteAt {bytes : List UInt8} {i n : Nat} (le : i + n ≤ bytes.length)
    : bytesFrom (byteAt bytes) i n = (bytes.drop i).take n := by
  apply List.ext_getElem
  · rw [length_bytesFrom, List.length_take, List.length_drop]
    omega
  · intro j _ _
    have bound : i + j < bytes.length := by
      rw [length_bytesFrom] at *
      omega
    simp [bytesFrom, byteAt, bound]

--------------------------------------------------
-- Lengths
--------------------------------------------------

namespace TcpPacket

variable (t : TcpPacket)

theorem packetLength : (ipFields (byteAt t.bytes)).packetLength.toNat = t.bytes.length - 20 := by
  have ge := t.offset_ge
  have le := t.offset_le
  have twenty : (20 : UInt16) ≤ word16 (byteAt t.bytes 2) (byteAt t.bytes 3) := by
    rw [UInt16.le_iff_toNat_le, t.totalLength]
    simp only [UInt16.reduceToNat]
    omega
  have subtracted := UInt16.toNat_sub_of_le _ _ twenty
  rw [t.totalLength] at subtracted
  exact subtracted

theorem optionsLength : optionsLength (byteAt t.bytes) = (headerLength (byteAt t.bytes)).toNat - 20 :=
  UInt8.toNat_sub_of_le _ _ (UInt8.le_iff_toNat_le.mpr t.offset_ge)

theorem dataLength
    : (dataLength (byteAt t.bytes)).toNat
      = t.bytes.length - (20 + (headerLength (byteAt t.bytes)).toNat) := by
  have length := t.packetLength
  have le := t.offset_le
  have fits : (headerLength (byteAt t.bytes)).toUInt16 ≤ (ipFields (byteAt t.bytes)).packetLength := by
    rw [UInt16.le_iff_toNat_le, UInt8.toNat_toUInt16, length]
    omega
  rw [Device.dataLength, UInt16.toNat_sub_of_le _ _ fits, UInt8.toNat_toUInt16, length]
  omega

theorem headerValid : HeaderValid (byteAt t.bytes) := by
  have ge := t.offset_ge
  have le := t.offset_le
  refine ⟨t.version, t.whole, ?_⟩
  rw [bytesFrom_byteAt (by omega), List.drop_zero]
  exact t.headerSum

theorem lowPort : byteAt t.bytes 23 = 80 := by
  have low := word16_low (byteAt t.bytes 22) (byteAt t.bytes 23)
  rw [t.port] at low
  exact low.symm

theorem isSegment : IsSegment (byteAt t.bytes) := ⟨t.headerValid, t.protocol, t.lowPort⟩

theorem segmentBytes : segmentBytes (byteAt t.bytes) = t.bytes.drop 20 := by
  have ge := t.offset_ge
  have le := t.offset_le
  rw [Device.segmentBytes, t.optionsLength, t.dataLength, bytesFrom_byteAt (by omega),
    List.take_of_length_le]
  rw [List.length_drop]
  omega

theorem dataBytes (p : Program) : dataBytes (byteAt t.bytes) = (t.segment p).payload := by
  have ge := t.offset_ge
  have le := t.offset_le
  have start : 40 + Device.optionsLength (byteAt t.bytes)
      = 20 + (headerLength (byteAt t.bytes)).toNat := by
    rw [t.optionsLength]
    omega
  rw [Device.dataBytes, start, t.dataLength, bytesFrom_byteAt (by omega), List.take_of_length_le]
  · rfl
  · rw [List.length_drop]

/-- As many bytes are read as the packet has. -/
theorem bytesRead (p : Program) (s : Server) : bytesRead p s (byteAt t.bytes) = t.bytes.length := by
  have ge := t.offset_ge
  have le := t.offset_le
  obtain ⟨version, whole, ones⟩ := t.headerValid
  rw [Device.bytesRead, if_neg (not_not.mpr version), if_neg whole, if_neg (not_not.mpr ones),
    if_pos t.protocol, if_pos t.lowPort, t.optionsLength, t.dataLength]
  omega

theorem bytes_eq (p : Program) (s : Server)
    : bytesFrom (byteAt t.bytes) 0 (Device.bytesRead p s (byteAt t.bytes)) = t.bytes := by
  rw [t.bytesRead p s, bytesFrom_byteAt (by omega), List.drop_zero, List.take_length]

--------------------------------------------------
-- The work on the segment
--------------------------------------------------

variable (p : Program) (s : Server)

omit t in
/-- The search for a connection looks at the sender only. -/
theorem findConnection_sender (seg : TcpSegment)
    : findConnection p s (sender seg.srcAddr seg.srcPort) = findConnection p s seg :=
  rfl

/-- The same locals as for the segment. -/
theorem tcpFields_index
    : (tcpFields p s (byteAt t.bytes)).index = (findConnection p s (t.segment p)).1 := by
  rw [← findConnection_sender]
  rfl

/-- The end of the segment. -/
theorem endSeqno : (tcpFields p s (byteAt t.bytes)).segment.endSeqno = (t.segment p).endSeqno := by
  have length := t.packetLength
  have le := t.offset_le
  have data := t.dataLength
  have payload : (t.segment p).payload.length = (Device.dataLength (byteAt t.bytes)).toNat := by
    rw [← t.dataBytes p]
    exact length_bytesFrom _ _ _
  have added : (t.segment p).endSeqno
      = (t.segment p).seqno + (Device.dataLength (byteAt t.bytes)).toUInt32 := by
    rw [TcpSegment.endSeqno, TcpSegment.segmentLength, payload, UInt32.ofNat_uInt16ToNat]
  have nothing : (tcpFields p s (byteAt t.bytes)).segment.endSeqno
      = (tcpFields p s (byteAt t.bytes)).segment.seqno := by
    rw [TcpSegment.endSeqno, TcpSegment.segmentLength]
    exact UInt32.add_zero _
  rw [nothing, added]
  change (if (headerLength (byteAt t.bytes)).toNat < (ipFields (byteAt t.bytes)).packetLength.toNat
    then _ else _) = _
  split
  case isTrue => rfl
  case isFalse short =>
    have zero : Device.dataLength (byteAt t.bytes) = 0 := by
      rw [← UInt16.toNat_inj, data]
      simp only [UInt16.reduceToNat]
      omega
    rw [zero]
    exact (UInt32.add_zero _).symm

/-- The state machine looks at the end of a segment and at its flags. -/
theorem sequence_congr {seg seg' : TcpSegment} (ends : seg.endSeqno = seg'.endSeqno)
    (flags : seg.flags = seg'.flags) (c : HttpConnection)
    : sequence seg c = sequence seg' c := by
  have has (flag : UInt8) : seg.has flag = seg'.has flag := by
    rw [TcpSegment.has, TcpSegment.has, flags]
  have transition (c : HttpConnection) : tcpTransition seg c = tcpTransition seg' c := by
    simp only [tcpTransition, has]
  simp only [Input.sequence, ends, transition]

/-- The MSS is the same. -/
theorem optionsMss_eq (c : HttpConnection)
    : optionsMss p (byteAt t.bytes) { c with cwnd := (t.segment p).window }
      = negotiate p (t.segment p) c := by
  have le := t.offset_le
  have length := t.optionsLength
  rw [optionsMss, negotiate]
  split
  case isTrue long =>
    have four : 4 ≤ Device.optionsLength (byteAt t.bytes) := UInt8.le_iff_toNat_le.mp long
    have options : (t.segment p).options = byteAt t.bytes 40 :: byteAt t.bytes 41
        :: byteAt t.bytes 42 :: byteAt t.bytes 43
        :: bytesFrom (byteAt t.bytes) 44 (Device.optionsLength (byteAt t.bytes) - 4) := by
      change (t.bytes.drop 40).take _ = _
      rw [← length, ← bytesFrom_byteAt (by omega)]
      conv_lhs => rw [← Nat.add_sub_cancel' four, bytesFrom_add]
      rfl
    rw [options]
    rfl
  case isFalse short =>
    have few : Device.optionsLength (byteAt t.bytes) < 4 := by
      by_contra four
      exact short (UInt8.le_iff_toNat_le.mpr (Nat.le_of_not_lt four))
    have options : (t.segment p).options.length < 4 := by
      change ((t.bytes.drop 40).take _).length < 4
      rw [List.length_take]
      omega
    split
    case h_1 options_eq =>
      rw [options_eq] at options
      simp only [List.length_cons] at options
      omega
    case h_2 => rfl

theorem beforeParsing_eq
    : beforeParsing p (t.segment p) (findConnection p s (t.segment p)).2
      = ((tcpFields p s (byteAt t.bytes)).newTcpData, (tcpFields p s (byteAt t.bytes)).connection,
        (tcpFields p s (byteAt t.bytes)).cleanService,
        (tcpFields p s (byteAt t.bytes)).freeHandler) := by
  have ends := t.endSeqno p s
  have same (c : HttpConnection) : sequence (t.segment p) c
      = sequence (tcpFields p s (byteAt t.bytes)).segment c :=
    sequence_congr ends.symm rfl c
  rw [beforeParsing, ← findConnection_sender]
  simp only [same, ← t.optionsMss_eq p]
  rfl

/-- What waits for the checksum, without the bytes that were dropped. -/
def withoutDropped : Pending ⊕ Heap → Pending ⊕ Heap :=
  Sum.map (fun d => { d with dropped := [] }) id

theorem payload_length
    : (tcpFields p s (byteAt t.bytes)).segmentLength.toNat = (t.segment p).payload.length := by
  rw [← t.dataBytes p]
  exact (length_bytesFrom _ _ _).symm

theorem payload_eq_nil
    : (t.segment p).payload ≠ [] ↔ (tcpFields p s (byteAt t.bytes)).segmentLength ≠ 0 := by
  have length := t.payload_length p s
  rw [ne_eq, ne_eq, ← List.length_eq_zero_iff, ← length, ← UInt16.toNat_inj]
  rfl

theorem queueAck_eq (c : HttpConnection)
    : queueAck (t.segment p) c
      = acknowledgeData (tcpFields p s (byteAt t.bytes)).segmentLength c := by
  simp only [queueAck, acknowledgeData, t.payload_eq_nil p s]

/-- The parser is given the same data. -/
theorem process_eq (heap : Heap)
    : (process p (t.segment p) (findConnection p s (t.segment p)).2 heap).map withoutDropped
      = dataPending p (tcpFields p s (byteAt t.bytes)) heap (Device.dataBytes (byteAt t.bytes)) := by
  have condition : isParsed (t.segment p) (tcpFields p s (byteAt t.bytes)).newTcpData
      (tcpFields p s (byteAt t.bytes)).connection = true
      ↔ (tcpFields p s (byteAt t.bytes)).Parsed := by
    rw [isParsed, Incoming.Parsed]
    simp only [Bool.and_eq_true, Bool.or_eq_true, decide_eq_true_eq,
      t.payload_eq_nil p s, Option.isNone_iff_eq_none, and_assoc]
  have ackno : (tcpFields p s (byteAt t.bytes)).segment.ackno = (t.segment p).ackno := rfl
  rw [process, t.beforeParsing_eq p s, dataPending, t.dataBytes p]
  dsimp only
  rw [ackno]
  by_cases parsed : (tcpFields p s (byteAt t.bytes)).Parsed
  · rw [if_pos (condition.mpr parsed), if_pos parsed]
    cases parseSegment p (tcpFields p s (byteAt t.bytes)).connection.request heap
      (tcpFields p s (byteAt t.bytes)).connection.outputHandler (t.segment p).payload with
    | none => rfl
    | some parsed =>
        cases parsed with
        | parsed o =>
            simp only [Option.bind_eq_bind, Option.bind_some, Option.map_some, t.queueAck_eq p s]
            rfl
        | returned heap => rfl
  · rw [if_neg (mt condition.mp parsed), if_neg parsed]
    simp only [Option.map_some, t.queueAck_eq p s]
    rfl

theorem checksumValid
    : (t.segment p).checksumValid
      = decide (sum (pseudoHeader p (byteAt t.bytes) ++ t.bytes.drop 20) = 0xffff) := by
  simp only [segment]

/-- The bytes of a packet do to the server what its segment does. -/
theorem receivedPacket_eq
    : receivedPacket p s (byteAt t.bytes) = Input.smewsReceive p (t.segment p) s := by
  have port : (t.segment p).dstPort % 256 = 80 := by
    change word16 (byteAt t.bytes 22) (byteAt t.bytes 23) % 256 = 80
    rw [t.port]
    rfl
  have ackno : (tcpFields p s (byteAt t.bytes)).segment.ackno = (t.segment p).ackno := rfl
  have valid : sum (pseudoHeader p (byteAt t.bytes) ++ t.bytes.drop 20) = 0xffff
      ↔ (t.segment p).checksumValid = true := by
    rw [t.checksumValid p, decide_eq_true_iff]
  have processed := t.process_eq p s s.heap
  rw [receivedPacket, if_pos t.headerValid, if_pos t.protocol, if_pos t.lowPort, receivedSegment,
    Input.smewsReceive, if_pos port, t.segmentBytes]
  simp only [← processed, t.tcpFields_index p s, valid]
  generalize findConnection p s (t.segment p) = found
  obtain ⟨i, c⟩ := found
  dsimp only
  cases process p (t.segment p) c s.heap with
  | none => rfl
  | some result =>
      cases result with
      | inl d =>
          simp only [Option.map_some, withoutDropped, Sum.map_inl, Option.bind_eq_bind,
            Option.bind_some, commit, commitService, ackno]
      | inr heap => rfl

end TcpPacket

--------------------------------------------------
-- The receiver of packets
--------------------------------------------------

/-- The checksum of the whole segment and its pseudo-header. -/
theorem segment_sum (p : Program) (t : TcpPacket)
    : ((tcpSum p (byteAt t.bytes)).addBytes (t.bytes.drop 40)).value
      = pseudoWeight p (byteAt t.bytes) + weight false (t.bytes.drop 20) := by
  have ge := t.offset_ge
  have le := t.offset_le
  have header : bytesFrom (byteAt t.bytes) 20 20 = (t.bytes.drop 20).take 20 :=
    bytesFrom_byteAt (by omega)
  have even : ((t.bytes.drop 20).take 20).length % 2 = 0 := by
    rw [List.length_take, List.length_drop]
    omega
  have split : t.bytes.drop 20 = (t.bytes.drop 20).take 20 ++ t.bytes.drop 40 := by
    conv_lhs => rw [← List.take_append_drop 20 (t.bytes.drop 20), List.drop_drop]
  rw [((tcpSum_sums p (byteAt t.bytes)).addBytes (t.bytes.drop 40)).value, header]
  conv_rhs => rw [split, weight_append_even even]
  rw [add_assoc]

/-- Every packet is read to its end, each byte of its segment is summed once, and it does to the
server what its segment does, which is committed when it sums to `0xffff` with its pseudo-header. Only
a stack for a POST coroutine that cannot be allocated ends the reading before.
-/
theorem received_packet_summed_once (p : Program) (s : Server) (t : TcpPacket) {σ : Type}
    (src : Source σ) {d d' : σ} (k : Checksum)
    (delivers : Delivers src (fun _ => False) (· = d') d t.bytes)
    (prepared : ∀ heap, process p (t.segment p) (findConnection p s (t.segment p)).2 s.heap
      ≠ some (.inr heap))
    : ∃ k', k'.value = pseudoWeight p (byteAt t.bytes) + weight false (t.bytes.drop 20)
        ∧ Device.smewsReceive src p s ⟨d, k⟩
          = (Input.smewsReceive p (t.segment p) s).map (·, ⟨d', k'⟩) := by
  have complete : Complete p s (byteAt t.bytes) := by
    intro _
    by_contra left
    obtain ⟨heap, returns⟩ := dataPending_abandoned left
    rw [← t.process_eq p s, Option.map_eq_some_iff] at returns
    obtain ⟨result, processed, returned⟩ := returns
    cases result with
    | inl d => exact nomatch returned
    | inr heap => exact prepared heap processed
  rw [← t.bytes_eq p s] at delivers
  have stays : StaysDry src fun _ => False := fun _ isDry => isDry.elim
  have follows := smewsReceive_follows stays (r := ⟨d, k⟩) delivers
  rw [t.receivedPacket_eq p s] at follows
  obtain ⟨undefined, undefined'⟩ | ⟨s', ⟨s'', r⟩, received, received', rfl, consumed⟩ :=
    follows.of_not_escapes fun ⟨_, isDry⟩ => isDry
  · exact ⟨_, segment_sum p t, by rw [undefined, undefined']; rfl⟩
  · obtain ⟨source, sums⟩ := consumed complete
    refine ⟨r.state, ?_, ?_⟩
    · rw [sums t.isSegment, t.segmentBytes]
    · rw [received, received', ← source]
      rfl

/-- A `SYN` of a client, with an MSS. -/
def synPacket : TcpPacket :=
  {
    bytes := [
      0x45, 0, 0, 44, 0, 1, 0, 0, 64, 6, 247, 113, 192, 168, 1, 5, 192, 168, 1, 4,
      15, 160, 0, 80, 0, 0, 3, 232, 0, 0, 0, 0, 0x60, 2, 32, 0, 224, 244, 0, 0, 2, 4, 5, 180
    ]
    version := rfl
    totalLength := by decide
    whole := by decide
    protocol := rfl
    headerSum := by decide +kernel
    port := by decide
    offset_ge := by decide
    offset_le := by decide
  }

/-- The `SYN` is read from a device that holds it alone. -/
theorem received_packet_summed_once_syn
    : ∃ k', k'.value = pseudoWeight (oneGenerator hello noArgs) (byteAt synPacket.bytes)
          + weight false (synPacket.bytes.drop 20)
        ∧ Device.smewsReceive ofList (oneGenerator hello noArgs) bootServer
            ⟨synPacket.bytes, Checksum.init⟩
          = (Input.smewsReceive (oneGenerator hello noArgs)
              (synPacket.segment (oneGenerator hello noArgs)) bootServer).map (·, ⟨[], k'⟩) := by
  have delivers := delivers_ofList synPacket.bytes []
  rw [List.append_nil] at delivers
  exact received_packet_summed_once _ _ synPacket ofList Checksum.init delivers fun heap h => nomatch h

/-- The `SYN` with an IP option. -/
def optionPacket : List UInt8 :=
  [
    0x46, 0, 0, 44, 0, 1, 0, 0, 64, 6, 244, 111, 192, 168, 1, 5, 192, 168, 1, 4, 1, 1, 1, 1,
    15, 160, 0, 80, 0, 0, 3, 232, 0, 0, 0, 0, 0x50, 2, 32, 0, 248, 176, 0, 0
  ]

/-- The IP header and the segment of the packet are valid, but only its first byte is read. -/
theorem received_packet_fails_option
    : optionPacket.length = 44 ∧ sum (optionPacket.take 24) = 0xffff
      ∧ sum ([192, 168, 1, 5, 192, 168, 1, 4, 0, 6, 0, 20] ++ optionPacket.drop 24) = 0xffff
      ∧ (Device.smewsReceive ofList (oneGenerator hello noArgs) bootServer
          ⟨optionPacket, Checksum.init⟩).map (fun y => y.2.source) = some (optionPacket.drop 1) := by
  refine ⟨rfl, ?_, ?_, ?_⟩ <;> decide +kernel

end Smews.System
