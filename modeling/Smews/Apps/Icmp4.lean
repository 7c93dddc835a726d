import Smews.Core.Checksum
import Smews.Core.Handlers

/-! `icmpv4.c`: the application that answers echo requests.
-/

namespace Smews.Apps

open Smews.Core OnesComplement

--------------------------------------------------
-- The application
--------------------------------------------------

/-- `UI16` of two bytes, the most significant one first. -/
def ui16 (s0 s1 : UInt8) : UInt16 := s0.toUInt16 <<< 8 ||| s1.toUInt16

/-- The static variables of the application. -/
structure Icmp4 where
  icmpPayload : List UInt8
  bufferSize : Int
  sequenceNumber : UInt16
  identifier : UInt16
  checksum : UInt16

def icmpEchoRequest : UInt8 := 8
def icmpEchoReply : UInt8 := 0
def icmpHeaderSize : Nat := 8

/-- `icmp4_packet_in`: what it returns and the static variables that it leaves. Past the end of the
packet it reads zeros.
-/
def icmp4PacketIn (payloadSize : UInt16) (packet : List UInt8) (st : Icmp4) : UInt8 × Icmp4 :=
  let byte (i : Nat) : UInt8 := packet.getD i 0
  if byte 0 ≠ icmpEchoRequest then (0, st)
  else
    let checksum := ui16 (byte 2) (byte 3)
    let identifier := ui16 (byte 4) (byte 5)
    let sequenceNumber := ui16 (byte 6) (byte 7)
    let data := (List.range (payloadSize.toNat - icmpHeaderSize)).map fun i => byte (icmpHeaderSize + i)
    let k := ((((Checksum.init.add (byte 0)).add (byte 1)).add16 checksum).add16 identifier).add16
      sequenceNumber
    let returned := if (k.addBytes data).finish.current ≠ 0xffff then 0 else 1
    (returned, {
      icmpPayload := data ++ st.icmpPayload.drop data.length
      bufferSize := payloadSize.toNat - icmpHeaderSize
      sequenceNumber, identifier, checksum
    })

/-- `icmp4_packet_out`: the bytes that it passes to `out_c` and the static variables that it leaves. -/
def icmp4PacketOut (st : Icmp4) : List UInt8 × Icmp4 :=
  let checksum := st.checksum + icmpEchoRequest.toUInt16 <<< 8
  let checksum := if checksum >>> 8 < icmpEchoRequest.toUInt16 then checksum + 1 else checksum
  let bytes (word : UInt16) : List UInt8 := [(word >>> 8).toUInt8, word.toUInt8]
  (icmpEchoReply :: 0 :: (bytes checksum ++ bytes st.identifier ++ bytes st.sequenceNumber
    ++ st.icmpPayload.take st.bufferSize.toNat), { st with checksum })

/-- The static variables before any packet. -/
def icmp4Init (outputBufferSize : UInt16) : Icmp4 :=
  {
    icmpPayload := List.replicate outputBufferSize.toNat 0
    bufferSize := 0
    sequenceNumber := 0
    identifier := 0
    checksum := 0
  }

/-- The static variables after a call of a handler above IP. -/
def icmp4After (h : HandlerRef) (st : Icmp4) : PacketCall → Icmp4
  | .packetIn h' info payload _ => if h' = h then (icmp4PacketIn info.payloadSize payload st).2 else st
  | .packetOut h' _ => if h' = h then (icmp4PacketOut st).2 else st

/-- The static variables after the calls so far. -/
def icmp4At (outputBufferSize : UInt16) (h : HandlerRef) (calls : List PacketCall) : Icmp4 :=
  calls.foldl (icmp4After h) (icmp4Init outputBufferSize)

/-- The handlers of the application. -/
def icmp4 (outputBufferSize : UInt16) (h : HandlerRef) : GpIpHandlers :=
  {
    protocol := 1
    dopacketin := fun _ calls info payload =>
      (icmp4PacketIn info.payloadSize payload (icmp4At outputBufferSize h calls)).1
    dopacketout := fun _ calls _ => (icmp4PacketOut (icmp4At outputBufferSize h calls)).1
  }

section Calls

variable {size : UInt16} {h : HandlerRef} {calls : List PacketCall} {info : ConnectionInfo}
  {payload : List UInt8} {code : UInt8}

theorem icmp4At_in
    : icmp4At size h (calls ++ [.packetIn h info payload code])
      = (icmp4PacketIn info.payloadSize payload (icmp4At size h calls)).2 := by
  simp [icmp4At, icmp4After]

/-- The calls of other handlers leave the variables. -/
theorem icmp4At_other {call : PacketCall} (other : icmp4After h (icmp4At size h calls) call = icmp4At size h calls)
    : icmp4At size h (calls ++ [call]) = icmp4At size h calls := by
  simpa [icmp4At] using other

end Calls

--------------------------------------------------
-- Replies
--------------------------------------------------

/-- The 16-bit word at a place of a packet. -/
def wordAt (packet : List UInt8) (i : Nat) : Nat :=
  (packet.getD i 0).toNat * 256 + (packet.getD (i + 1) 0).toNat

/-- A reply has type and code 0, the checksum of its request with `0x0800` added in ones' complement,
and the bytes of its request behind the checksum: the identifier, the sequence number and the data.
Its checksum is valid for its bytes.
-/
structure EchoReply (request reply : List UInt8) : Prop where
  header : reply.take 2 = [icmpEchoReply, 0]
  checksum : wordAt reply 2 = add (wordAt request 2) 0x0800
  copied : reply.drop 4 = request.drop 4
  valid : sum reply = 0xffff

/-- A reply is as long as its request. -/
theorem EchoReply.length {request reply : List UInt8} (echo : EchoReply request reply)
    (full : icmpHeaderSize ≤ request.length)
    : reply.length = request.length := by
  have copied := congrArg List.length echo.copied
  rw [List.length_drop, List.length_drop] at copied
  unfold icmpHeaderSize at full
  omega

/-- The static variables hold a request. -/
structure Icmp4.Stores (st : Icmp4) (request : List UInt8) : Prop where
  checksum : st.checksum.toNat = wordAt request 2
  header :
    [(st.identifier >>> 8).toUInt8, st.identifier.toUInt8, (st.sequenceNumber >>> 8).toUInt8,
      st.sequenceNumber.toUInt8] ++ request.drop 8 = request.drop 4
  payload : st.icmpPayload.take st.bufferSize.toNat = request.drop 8

theorem ui16_toNat (s0 s1 : UInt8) : (ui16 s0 s1).toNat = s0.toNat * 256 + s1.toNat := by
  have word := Checksum.current_toNat { s0, s1, carry := 0, flip := false }
  exact word

theorem word_bytes (word : UInt16)
    : (word >>> 8).toUInt8.toNat * 256 + word.toUInt8.toNat = word.toNat := by
  have bound := word.toNat_lt
  have high : (word >>> 8).toUInt8.toNat = word.toNat / 256 := by
    simp [UInt16.toNat_shiftRight, Nat.shiftRight_eq_div_pow]
    omega
  rw [high, UInt16.toNat_toUInt8]
  omega

theorem ui16_bytes (s0 s1 : UInt8)
    : (ui16 s0 s1 >>> 8).toUInt8 = s0 ∧ (ui16 s0 s1).toUInt8 = s1 := by
  have word := word_bytes (ui16 s0 s1)
  rw [ui16_toNat] at word
  have := s0.toNat_lt
  have := s1.toNat_lt
  have := (ui16 s0 s1 >>> 8).toUInt8.toNat_lt
  have := (ui16 s0 s1).toUInt8.toNat_lt
  rw [← UInt8.toNat_inj, ← UInt8.toNat_inj]
  omega

/-- The data of a request, read byte by byte. -/
theorem data_eq (packet : List UInt8) (n : Nat)
    : ((List.range (packet.length - n)).map fun i => packet.getD (n + i) 0) = packet.drop n := by
  apply List.ext_getElem
  · simp
  · intro i lt lt'
    rw [List.length_drop] at lt'
    simp only [List.getElem_map, List.getElem_range, List.getElem_drop]
    rw [List.getD_eq_getElem?_getD, List.getElem?_eq_getElem (by omega), Option.getD_some]

/-- A packet that is no request is dropped, and leaves the variables. -/
theorem icmp4PacketIn_other {size : UInt16} {packet : List UInt8} {st : Icmp4}
    (other : packet.getD 0 0 ≠ icmpEchoRequest)
    : icmp4PacketIn size packet st = (0, st) :=
  if_pos other

section Requests

variable {request : List UInt8} {st : Icmp4}

/-- A request starts with the eight bytes of its header. -/
theorem request_cases (type : request.getD 0 0 = icmpEchoRequest) (full : icmpHeaderSize ≤ request.length)
    : ∃ code c0 c1 i0 i1 n0 n1 data,
        request = icmpEchoRequest :: code :: c0 :: c1 :: i0 :: i1 :: n0 :: n1 :: data := by
  match request, full with
  | t :: code :: c0 :: c1 :: i0 :: i1 :: n0 :: n1 :: data, _ =>
      rw [List.getD_cons_zero] at type
      exact ⟨code, c0, c1, i0, i1, n0, n1, data, by rw [type]⟩

/-- A request is stored, and accepted when its checksum is valid. -/
theorem icmp4PacketIn_request (type : request.getD 0 0 = icmpEchoRequest)
    (full : icmpHeaderSize ≤ request.length) (small : request.length < 65536)
    : (icmp4PacketIn (UInt16.ofNat request.length) request st).2.Stores request
      ∧ (icmp4PacketIn (UInt16.ofNat request.length) request st).1
        = if sum request = 0xffff then 1 else 0 := by
  have length : (UInt16.ofNat request.length).toNat = request.length := by
    rw [UInt16.toNat_ofNat']
    exact Nat.mod_eq_of_lt small
  unfold icmp4PacketIn
  rw [if_neg (not_not.mpr type), length, data_eq]
  obtain ⟨code, c0, c1, i0, i1, n0, n1, data, rfl⟩ := request_cases type full
  refine ⟨⟨ui16_toNat c0 c1, ?_, ?_⟩, ?_⟩
  · obtain ⟨i0_eq, i1_eq⟩ := ui16_bytes i0 i1
    obtain ⟨n0_eq, n1_eq⟩ := ui16_bytes n0 n1
    change [(ui16 i0 i1 >>> 8).toUInt8, (ui16 i0 i1).toUInt8, (ui16 n0 n1 >>> 8).toUInt8,
      (ui16 n0 n1).toUInt8] ++ data = _
    rw [i0_eq, i1_eq, n0_eq, n1_eq]
    rfl
  · change (data ++ st.icmpPayload.drop data.length).take (((data.length + 8 : Nat) : Int) - (8 : Nat)).toNat
      = data
    have stored : (((data.length + 8 : Nat) : Int) - (8 : Nat)).toNat = data.length := by omega
    rw [stored, List.take_left']
    rfl
  · have sums := (((((Checksum.sums_init.add icmpEchoRequest).add code).add16 (ui16 c0 c1)).add16
      (ui16 i0 i1)).add16 (ui16 n0 n1)).addBytes data
    have positive : (Checksum.init.add icmpEchoRequest).Positive := by
      change 0 < _
      decide
    have positive := (((((positive.add code).add16 (ui16 c0 c1)).add16 (ui16 i0 i1)).add16
      (ui16 n0 n1)).addBytes data)
    have weighs : 0 + weight false [icmpEchoRequest] + weight (!false) [code]
        + ((ui16 c0 c1).toNat : ZMod 65535) + ((ui16 i0 i1).toNat : ZMod 65535)
        + ((ui16 n0 n1).toNat : ZMod 65535) + weight false data
        = sum (icmpEchoRequest :: code :: c0 :: c1 :: i0 :: i1 :: n0 :: n1 :: data) := by
      rw [cast_sum, ui16_toNat, ui16_toNat, ui16_toNat]
      simp only [weight, Bool.not_false]
      push_cast
      ring
    have ones := sums.current_eq_ones positive
    rw [weighs, cast_sum] at ones
    change (if Checksum.current _ ≠ 0xffff then (0 : UInt8) else 1) = _
    rw [ite_not]
    refine if_congr (ones.trans ⟨fun zero => ?_, fun valid => ?_⟩) rfl rfl
    · exact sum_eq_ones zero ⟨icmpEchoRequest, List.mem_cons_self, by decide⟩
    · rw [← cast_sum, valid]
      rfl

/-- The checksum of a reply: an overflow is seen in the high byte. -/
theorem reply_checksum (st : Icmp4)
    : (icmp4PacketOut st).2.checksum.toNat = add st.checksum.toNat 0x0800 := by
  have bound := st.checksum.toNat_lt
  have step : (icmpEchoRequest.toUInt16 <<< 8).toNat = 0x0800 := by decide
  have summed : (st.checksum + icmpEchoRequest.toUInt16 <<< 8).toNat
      = (st.checksum.toNat + 0x0800) % 65536 := by
    rw [UInt16.toNat_add, step]
  have high : ((st.checksum + icmpEchoRequest.toUInt16 <<< 8) >>> 8).toNat
      = (st.checksum.toNat + 0x0800) % 65536 / 256 := by
    rw [UInt16.toNat_shiftRight, summed]
    simp [Nat.shiftRight_eq_div_pow]
  have low : icmpEchoRequest.toUInt16.toNat = 8 := by decide
  simp only [icmp4PacketOut, UInt16.lt_iff_toNat_lt, high, low, add]
  split_ifs with overflow fits fits
  · omega
  · rw [UInt16.toNat_add, summed, UInt16.toNat_one]
    omega
  · omega
  · omega

/-- A reply copies what is stored, and its checksum counts the type that changed: with a request of code 0
it is valid.
-/
theorem Icmp4.Stores.reply (stores : st.Stores request) (type : request.getD 0 0 = icmpEchoRequest)
    (full : icmpHeaderSize ≤ request.length) (code : request.getD 1 0 = 0)
    (valid : sum request = 0xffff)
    : EchoReply request (icmp4PacketOut st).1 := by
  obtain ⟨checksum, header, payload⟩ := stores
  obtain ⟨code, c0, c1, i0, i1, n0, n1, data, rfl⟩ := request_cases type full
  rw [List.getD_cons_succ, List.getD_cons_zero] at code
  subst code
  have updated := reply_checksum st
  generalize eq : (icmp4PacketOut st).2.checksum = word at updated
  have bytes : (icmp4PacketOut st).1 = icmpEchoReply :: 0 :: (word >>> 8).toUInt8 :: word.toUInt8
      :: i0 :: i1 :: n0 :: n1 :: data := by
    rw [← eq]
    refine congrArg (fun rest => icmpEchoReply :: 0 :: _ :: _ :: rest) (Eq.trans ?_ header)
    rw [← payload]
    rfl
  have word_eq : wordAt (icmp4PacketOut st).1 2 = word.toNat := by
    rw [bytes]
    exact word_bytes word
  rw [checksum] at updated
  refine ⟨by rw [bytes]; rfl, word_eq.trans updated, by rw [bytes]; rfl, ?_⟩
  rw [bytes]
  have bound : wordAt (icmpEchoRequest :: 0 :: c0 :: c1 :: i0 :: i1 :: n0 :: n1 :: data) 2 < 65536 :=
    word_lt c0 c1
  refine sum_eq_ones ?_ ?_
  · have weighs : weight false (icmpEchoRequest :: 0 :: c0 :: c1 :: i0 :: i1 :: n0 :: n1 :: data) = 0 := by
      rw [← cast_sum, valid]
      rfl
    have word_cast : (word.toNat : ZMod 65535) = (c0.toNat * 256 + c1.toNat : Nat) + (0x0800 : Nat) := by
      rw [updated, cast_add]
      rfl
    rw [← word_bytes word] at word_cast
    simp only [weight, icmpEchoReply, icmpEchoRequest] at weighs ⊢
    push_cast at word_cast weighs ⊢
    linear_combination weighs + word_cast
  · by_contra zeros
    push Not at zeros
    have high := zeros (word >>> 8).toUInt8 (by simp)
    have low := zeros word.toUInt8 (by simp)
    have zero := word_bytes word
    rw [high, low, updated] at zero
    have none := ((add_eq_zero bound (by decide)).mp zero.symm).2
    cases none

/-- The code of a request counts in its checksum, and is replaced in the reply. -/
example : sum (icmp4PacketOut (icmp4PacketIn 8 [8, 1, 0xf7, 0xf2, 0, 5, 0, 7] (icmp4Init 0)).2).1 = 0xfffe := by
  decide

end Requests

end Smews.Apps
