import Smews.Core.Checksum
import Smews.Output.Packet

/-! The bytes that `smews_send_packet` writes to the device.
-/

namespace Smews.Output

open Smews.Core OnesComplement

--------------------------------------------------
-- Words
--------------------------------------------------

/-- `DEV_PUT16_VAL`, and `DEV_PUT16` of a value in memory. -/
def bytes16 (word : UInt16) : List UInt8 := [(word >>> 8).toUInt8, word.toUInt8]

/-- `DEV_PUT32` of a value in memory. -/
def bytes32 (dword : UInt32) : List UInt8 :=
  [(dword >>> 24).toUInt8, (dword >>> 16).toUInt8, (dword >>> 8).toUInt8, dword.toUInt8]

def mssOpt : UInt16 := 0x0204
def ipVhlTos : UInt16 := 0x4500
def ipId : UInt16 := 0x0000
def ipOffset : UInt16 := 0x0000
def ipTtlProtocol : UInt16 := 0x4006
def tcpSrcPort : UInt16 := 0x0050
def tcpWindow : UInt16 := 0x1000
def tcpUrgp : UInt16 := 0x0000

/-- `BASIC_IP_CHK`. -/
def basicIpChk : UInt16 := 0x8506

/-- `BASIC_TCP_CHK`. -/
def basicTcpChk : UInt16 := 0x1056

/-- `SERVICE_HTTP_HEADER_CHK`. -/
def serviceHttpHeaderChk : UInt16 := 0x1871

/-- `SERVICE_HTTP_HEADER_CHUNKED_CHK`. -/
def serviceHttpHeaderChunkedChk : UInt16 := 0x2876

--------------------------------------------------
-- The IP header
--------------------------------------------------

/-- The IP checksum of a packet, from the sum of the words that do not depend on it. -/
def ipChecksum (p : Program) (start : Checksum) (length : UInt16) (ipAddr : UInt32) : UInt16 :=
  ((start.add32 p.localIpAddr).add16 length |>.add32 ipAddr).finish.current

/-- The IP header of a packet. -/
def ipHeader (p : Program) (ttlProtocol : UInt16) (start : Checksum) (length : UInt16)
    (ipAddr : UInt32)
    : List UInt8 :=
  bytes16 ipVhlTos ++ bytes16 length ++ bytes16 ipId ++ bytes16 ipOffset ++ bytes16 ttlProtocol
    ++ bytes16 (~~~ ipChecksum p start length ipAddr) ++ bytes32 p.localIpAddr ++ bytes32 ipAddr

/-- The IP header of a TCP segment. -/
def tcpIpHeader (p : Program) (segmentLength : UInt16) (ipAddr : UInt32) : List UInt8 :=
  ipHeader p ipTtlProtocol (Checksum.init.set basicIpChk) (segmentLength + 40) ipAddr

/-- The first words of the IP checksum of a packet above IP, whose protocol differs. -/
def gpIpChecksumStart (protocol : UInt8) : Checksum :=
  ((Checksum.init.add16 ipVhlTos).add16 ipId |>.add16 ipOffset).add16 (0xff00 ||| protocol.toUInt16)

/-- `smews_send_packet` for a connection above IP. Its `segment_length` is short of the TCP header
that it has not.
-/
def gpIpPacketBytes (p : Program) (c : GpIpConnection) (content : List UInt8) : List UInt8 :=
  let segmentLength := UInt16.ofNat content.length - 20
  ipHeader p (0xff00 ||| c.protocol.toUInt16) (gpIpChecksumStart c.protocol) (segmentLength + 40)
    c.ipAddr ++ content

--------------------------------------------------
-- The TCP segment
--------------------------------------------------

/-- What `smews_send_packet` reads of a connection, or of `rst_connection` in its absence. -/
structure Endpoint where
  ipAddr : UInt32
  port : UInt16
  nextOutseqno : UInt32
  currentInseqno : UInt32
  tcpMss : UInt16
  outputHandler : HandlerRef

/-- An HTTP connection of the ring. -/
def HttpConnection.endpoint (c : HttpConnection) (h : HandlerRef) : Endpoint :=
  {
    ipAddr := c.ipAddr
    port := c.port
    nextOutseqno := c.nextOutseqno
    currentInseqno := c.currentInseqno
    tcpMss := c.tcpMss
    outputHandler := h
  }

/-- `smews_send_packet(NULL)`. No MSS is read for a `RST`. -/
def RstConnection.endpoint (r : RstConnection) : Endpoint :=
  {
    ipAddr := r.ipAddr
    port := r.port
    nextOutseqno := r.nextOutseqno
    currentInseqno := r.currentInseqno
    tcpMss := 0
    outputHandler := .rst
  }

/-- `curr_output.checksum`, once a segment was generated: `checksum_init` before, `checksum_add`
with each byte that `out_c` stores, `checksum_end` behind.
-/
def currChecksum (s : Server) : UInt16 := (Checksum.init.addBytes (currContent s)).finish.current

/-- The length of a chunk or of the contents, added from its last digit on between two zero bytes
for the alignment.
-/
def addDigits (digits : List UInt8) (k : Checksum) : Checksum :=
  ((k.add 0).addBytes digits.reverse).add 0

/-- The checksum of the contents of a generator segment. -/
def addContent (header : ServiceHeader) (length : UInt16) (content : UInt16) (k : Checksum)
    : Checksum :=
  let chunk (k : Checksum) : Checksum :=
    (addDigits (digits 16 hexDigit chunkLengthSize length.toNat) k).add16 0x0d0a
      |>.add16 (if length % 2 ≠ 0 then 0x0a0d else 0x0d0a)
  let k := k.add16 content
  match header with
  | .standard =>
      addDigits (digits 10 decimalDigit contentLengthSize length.toNat)
        (k.add16 serviceHttpHeaderChk)
  | .chunks => chunk (k.add16 serviceHttpHeaderChunkedChk)
  | .none => chunk k

/-- The TCP header length, in its upper half. -/
def dataOffset (p : Program) (h : HandlerRef) : UInt8 := if isSyn p h then 0x60 else 0x50

/-- The checksum of the pseudo-header and of the TCP header. -/
def headerChecksum (p : Program) (e : Endpoint) (segmentLength : UInt16) : Checksum :=
  let k := Checksum.init.set basicTcpChk
  let k := k.add32 p.localIpAddr
  let k := k.add16 (segmentLength + 20)
  let k := k.add32 e.nextOutseqno
  let k := k.add (dataOffset p e.outputHandler)
  let k := k.add (getFlags p e.outputHandler)
  let k := k.add32 e.ipAddr
  let k := k.add16 e.port
  k.add32 e.currentInseqno

/-- The TCP header of a segment. -/
def tcpHeader (p : Program) (e : Endpoint) (checksum : UInt16) : List UInt8 :=
  bytes16 tcpSrcPort ++ bytes16 e.port ++ bytes32 e.nextOutseqno ++ bytes32 e.currentInseqno
    ++ [dataOffset p e.outputHandler, getFlags p e.outputHandler] ++ bytes16 tcpWindow
    ++ bytes16 (~~~ checksum) ++ bytes16 tcpUrgp

/-- The MSS option of a `SYN`. -/
def synOptions (p : Program) (e : Endpoint) : List UInt8 :=
  if isSyn p e.outputHandler then bytes16 mssOpt ++ bytes16 e.tcpMss else []

/-- The checksum of the MSS option of a `SYN`. -/
def addSynOptions (p : Program) (e : Endpoint) (k : Checksum) : Checksum :=
  if isSyn p e.outputHandler then (k.add16 mssOpt).add16 e.tcpMss else k

/-- `smews_send_packet` for a control packet or a segment of a generator. -/
def packetBytes (p : Program) (s : Server) (e : Endpoint) : Option (List UInt8) :=
  match (p.handler e.outputHandler).data with
  | .control length _ =>
      let checksum := addSynOptions p e (headerChecksum p e length.toUInt16)
      some (tcpIpHeader p length.toUInt16 e.ipAddr ++ tcpHeader p e checksum.finish.current
        ++ synOptions p e)
  | .generator _ =>
      let o := s.currOutput
      let length := o.contentLength + UInt16.ofNat (serviceHeadersSize o.serviceHeader)
      let checksum := addContent o.serviceHeader o.contentLength (currChecksum s)
        (headerChecksum p e length)
      some (tcpIpHeader p length e.ipAddr ++ tcpHeader p e checksum.finish.current
        ++ generatorPayload o.serviceHeader (currContent s))
  | _ => none

--------------------------------------------------
-- Packets that verify
--------------------------------------------------

/-- The TCP pseudo-header of a packet: its addresses, its protocol and the length of its segment. -/
def pseudoHeader (bytes : List UInt8) : List UInt8 :=
  (bytes.drop 12).take 8 ++ [0, bytes.getD 9 0] ++ bytes16 (UInt16.ofNat (bytes.length - 20))

/-- A packet whose length and checksums a receiver accepts. -/
structure Verifies (bytes : List UInt8) : Prop where
  totalLength : (bytes.getD 2 0).toNat * 256 + (bytes.getD 3 0).toNat = bytes.length
  header : sum (bytes.take 20) = 0xffff
  segment : sum (pseudoHeader bytes ++ bytes.drop 20) = 0xffff

section Words

theorem bytes16_toNat (word : UInt16)
    : (word >>> 8).toUInt8.toNat * 256 + word.toUInt8.toNat = word.toNat := by
  have := word.toNat_lt
  have high : (word >>> 8).toUInt8.toNat = word.toNat / 256 := by
    simp [UInt16.toNat_shiftRight, Nat.shiftRight_eq_div_pow]
    omega
  rw [high, UInt16.toNat_toUInt8]
  omega

theorem weight_bytes16 (word : UInt16) (rest : List UInt8)
    : weight false (bytes16 word ++ rest) = (word.toNat : ZMod 65535) + weight false rest := by
  rw [← congrArg (Nat.cast (R := ZMod 65535)) (bytes16_toNat word)]
  simp only [bytes16, List.cons_append, List.nil_append, weight]
  push_cast
  ring

theorem weight_bytes32 (dword : UInt32) (rest : List UInt8)
    : weight false (bytes32 dword ++ rest) = weight false (bytes32 dword) + weight false rest :=
  weight_append_even (by simp [bytes32]) false rest

/-- The complement of a checksum cancels it. -/
theorem cast_complement (word : UInt16) : ((~~~ word).toNat : ZMod 65535) = - word.toNat := by
  have bound := word.toNat_lt
  have complement : (~~~ word).toNat + word.toNat = 65535 := by
    rw [UInt16.toNat_not]
    simp only [UInt16.size]
    omega
  rw [eq_neg_iff_add_eq_zero, ← Nat.cast_add, complement, ZMod.natCast_self]

end Words

section Headers

variable {p : Program} {e : Endpoint}

theorem length_ipHeader (ttlProtocol : UInt16) (start : Checksum) (length : UInt16) (ipAddr : UInt32)
    : (ipHeader p ttlProtocol start length ipAddr).length = 20 := rfl

theorem length_tcpHeader (checksum : UInt16) : (tcpHeader p e checksum).length = 20 := rfl

/-- An IP header whose precomputed sum is the one of its constant words sums to `0xffff`. -/
theorem sum_ipHeader {ttlProtocol : UInt16} {start : Checksum} (length : UInt16) (ipAddr : UInt32)
    (constant : start.Sums false (ipVhlTos.toNat + ttlProtocol.toNat))
    : sum (ipHeader p ttlProtocol start length ipAddr) = 0xffff := by
  apply sum_eq_ones
  · have checksum := (((constant.add32 p.localIpAddr).add16 length).add32 ipAddr).current
    have last := weight_bytes32 ipAddr []
    rw [List.append_nil] at last
    simp only [ipHeader, List.append_assoc, weight_bytes16, weight_bytes32, cast_complement,
      ipChecksum, checksum]
    simp [ipId, ipOffset, bytes32]
    ring
  · exact ⟨0x45, List.mem_of_getElem? (i := 0) rfl, by decide⟩

/-- The sum of the pseudo-header and of the TCP header, less the checksum. -/
theorem headerChecksum_sums (segmentLength : UInt16)
    : (headerChecksum p e segmentLength).Sums false
        (basicTcpChk.toNat + weight false (bytes32 p.localIpAddr)
          + ((segmentLength + 20).toNat : ZMod 65535) + weight false (bytes32 e.nextOutseqno)
          + weight false [dataOffset p e.outputHandler, getFlags p e.outputHandler]
          + weight false (bytes32 e.ipAddr) + (e.port.toNat : ZMod 65535)
          + weight false (bytes32 e.currentInseqno)) := by
  have offset := (((Checksum.sums_set basicTcpChk).add32 p.localIpAddr).add16
    (segmentLength + 20)).add32 e.nextOutseqno |>.add (dataOffset p e.outputHandler)
  have flags := offset.add (getFlags p e.outputHandler)
  have rest := ((flags.add32 e.ipAddr).add16 e.port).add32 e.currentInseqno
  refine ⟨rest.flip, rest.value.trans ?_⟩
  simp only [bytes32, weight, Bool.not_false]
  ring

/-- The two precomputed checksums are those of the constant words. -/
theorem basicIpChk_sums
    : (Checksum.init.set basicIpChk).Sums false (ipVhlTos.toNat + ipTtlProtocol.toNat) := by
  have constant : ((ipVhlTos.toNat + ipTtlProtocol.toNat : Nat) : ZMod 65535)
      = ((basicIpChk.toNat : Nat) : ZMod 65535) := rfl
  rw [← Nat.cast_add, constant]
  exact Checksum.sums_set basicIpChk

/-- A segment whose checksum covers its contents verifies in its packet. -/
theorem verifies_tcp {rest : List UInt8} {segmentLength : UInt16} {k : Checksum} {v : ZMod 65535}
    (length : segmentLength.toNat = rest.length) (fits : rest.length + 40 < 65536)
    (header : (headerChecksum p e segmentLength).Sums false v)
    (sums : k.Sums false (v + weight false rest))
    : Verifies (tcpIpHeader p segmentLength e.ipAddr ++ tcpHeader p e k.finish.current ++ rest) := by
  have ip_length : (tcpIpHeader p segmentLength e.ipAddr).length = 20 := rfl
  have tcp_length : (tcpHeader p e k.finish.current).length = 20 := rfl
  have total : (tcpIpHeader p segmentLength e.ipAddr ++ tcpHeader p e k.finish.current
      ++ rest).length = rest.length + 40 := by
    rw [List.length_append, List.length_append, ip_length, tcp_length]
    omega
  have length40 : (segmentLength + 40).toNat = rest.length + 40 := by
    rw [UInt16.toNat_add, length]
    exact Nat.mod_eq_of_lt fits
  have length20 : (segmentLength + 20).toNat = rest.length + 20 := by
    rw [UInt16.toNat_add, length]
    exact Nat.mod_eq_of_lt (by simp; omega)
  refine ⟨?_, ?_, ?_⟩
  · rw [total, ← length40]
    exact bytes16_toNat (segmentLength + 40)
  · rw [List.append_assoc, List.take_left' ip_length]
    exact sum_ipHeader (segmentLength + 40) e.ipAddr basicIpChk_sums
  · have pseudo : pseudoHeader (tcpIpHeader p segmentLength e.ipAddr
        ++ tcpHeader p e k.finish.current ++ rest)
        = bytes32 p.localIpAddr ++ bytes32 e.ipAddr ++ bytes16 6
          ++ bytes16 (segmentLength + 20) := by
      have length_eq : UInt16.ofNat (rest.length + 40 - 20) = segmentLength + 20 := by
        rw [← UInt16.toNat_inj, length20, UInt16.toNat_ofNat']
        omega
      rw [pseudoHeader, total, length_eq]
      rfl
    rw [pseudo, List.append_assoc (tcpIpHeader ..), List.drop_left' ip_length]
    apply sum_eq_ones
    · have checksum := sums.current
      have known := header.value.symm.trans (headerChecksum_sums segmentLength).value
      have constant : ((basicTcpChk.toNat : Nat) : ZMod 65535)
          = (((6 : UInt16).toNat + tcpSrcPort.toNat + tcpWindow.toNat + tcpUrgp.toNat : Nat)
            : ZMod 65535) := rfl
      rw [known, constant] at checksum
      push_cast at checksum
      have flags (rest : List UInt8)
          : weight false ([dataOffset p e.outputHandler, getFlags p e.outputHandler] ++ rest)
            = weight false [dataOffset p e.outputHandler, getFlags p e.outputHandler]
              + weight false rest :=
        weight_append_even (by simp) false rest
      simp only [tcpHeader, List.append_assoc, weight_bytes16, weight_bytes32, cast_complement,
        checksum, flags, UInt16.reduceToNat, Nat.cast_ofNat]
      ring
    · refine ⟨0x50, ?_, by decide⟩
      simp [tcpHeader, bytes16, tcpSrcPort]

end Headers

--------------------------------------------------
-- Contents
--------------------------------------------------

section Contents

variable {p : Program} {e : Endpoint} {k : Checksum} {v : ZMod 65535}

/-- Digits that are added backwards, between zeros, count as in the packet. -/
theorem addDigits_sums {ds : List UInt8} (sums : k.Sums false v) (even : ds.length % 2 = 0)
    : (addDigits ds k).Sums false (v + weight false ds) := by
  have added := ((sums.add 0).addBytes ds.reverse).add 0
  have zero (odd : Bool) : weight odd [0] = 0 := by cases odd <;> simp [weight]
  have parity : decide (ds.reverse.length % 2 = 1) = false := by simp [even]
  rw [parity, zero, zero, add_zero, add_zero, weight_reverse even] at added
  exact added

/-- The words that end a line, at an even or at an odd place. -/
theorem weight_lineEnd (odd : Bool)
    : weight odd [13, 10] = (((if odd then 0x0a0d else 0x0d0a : UInt16).toNat : Nat) : ZMod 65535) := by
  cases odd <;> rfl

/-- The precomputed checksums are those of the HTTP headers. -/
theorem serviceHttpHeader_sum
    : sum (serviceHttpHeader ++ serviceHttpHeaderPart2) = serviceHttpHeaderChk.toNat := by
  decide +kernel

theorem serviceHttpHeaderChunked_sum
    : sum serviceHttpHeaderChunked = serviceHttpHeaderChunkedChk.toNat := by
  decide +kernel

/-- The checksum of the contents is the one of the payload that is written, for any header and
parity.
-/
theorem addContent_sums {header : ServiceHeader} {length : UInt16} {content : List UInt8}
    (sums : k.Sums false v) (same : length.toNat = content.length)
    : (addContent header length ((Checksum.init.addBytes content).finish.current) k).Sums false
        (v + weight false (generatorPayload header content)) := by
  have summed := (Checksum.sums_init.addBytes content).current
  have start := sums.add16 (Checksum.init.addBytes content).finish.current
  rw [summed, zero_add] at start
  have parity : decide (length % 2 ≠ 0) = decide (content.length % 2 = 1) := by
    rw [decide_eq_decide, ne_eq, ← UInt16.toNat_inj, UInt16.toNat_mod, same]
    change ¬ content.length % 2 = 0 ↔ _
    omega
  have chunk {k : Checksum} {w : ZMod 65535} (sums : k.Sums false w)
      : (((addDigits (digits 16 hexDigit chunkLengthSize length.toNat) k).add16 0x0d0a).add16
          (if length % 2 ≠ 0 then 0x0a0d else 0x0d0a)).Sums false
          (w - weight false content + weight false (generatorPayload .none content)) := by
    have even : (digits 16 hexDigit chunkLengthSize content.length).length % 2 = 0 := by
      rw [length_digits]
      rfl
    have added := ((addDigits_sums sums (same ▸ even)).add16 0x0d0a).add16
      (if length % 2 ≠ 0 then 0x0a0d else 0x0d0a)
    refine ⟨added.flip, added.value.trans ?_⟩
    have trailer := weight_lineEnd (decide (length % 2 ≠ 0))
    simp only [decide_eq_true_eq] at trailer
    rw [← trailer, parity]
    simp only [generatorPayload, List.append_assoc, same]
    rw [weight_append_even even, weight_append_even (by simp), weight_append false content,
      weight_lineEnd false, Bool.false_xor]
    simp only [Bool.false_eq_true, if_false]
    ring
  cases header with
  | standard =>
      have even : (digits 10 decimalDigit contentLengthSize content.length).length % 2 = 0 := by
        rw [length_digits]
        rfl
      have added := addDigits_sums (start.add16 serviceHttpHeaderChk) (same ▸ even)
      refine ⟨added.flip, added.value.trans ?_⟩
      have constant : (serviceHttpHeaderChk.toNat : ZMod 65535)
          = weight false serviceHttpHeader + weight false serviceHttpHeaderPart2 := by
        rw [← weight_append_even (by decide), ← cast_sum, serviceHttpHeader_sum]
      simp only [generatorPayload, List.append_assoc, same, constant]
      rw [weight_append_even (by decide), weight_append_even even, weight_append_even (by decide)]
      ring
  | chunks =>
      have added := chunk (start.add16 serviceHttpHeaderChunkedChk)
      refine ⟨added.flip, added.value.trans ?_⟩
      have constant : (serviceHttpHeaderChunkedChk.toNat : ZMod 65535)
          = weight false serviceHttpHeaderChunked := by
        rw [← cast_sum, serviceHttpHeaderChunked_sum]
      have payload : generatorPayload .chunks content
          = serviceHttpHeaderChunked ++ generatorPayload .none content := by
        simp only [generatorPayload, List.append_assoc]
      rw [payload, weight_append_even (by decide), constant]
      ring
  | none =>
      have added := chunk start
      exact ⟨added.flip, added.value.trans (by ring)⟩

end Contents

--------------------------------------------------
-- Emitted packets
--------------------------------------------------

/-- A segment that was just generated: without a buffer it is the void chunk, and it fits into an
IP packet.
-/
structure FreshSegment (s : Server) : Prop where
  buffer : s.currOutput.buffer = none → s.currOutput.contentLength = 0
  fits : s.currOutput.contentLength.toNat + serviceHeadersSize s.currOutput.serviceHeader + 40 < 65536

section Emitted

variable {p : Program} {s : Server} {e : Endpoint}

/-- Contents that lie in an output buffer of the usual sizes fit into a packet. -/
theorem FreshSegment.of_buffer (buffer : s.currOutput.buffer = none → s.currOutput.contentLength = 0)
    (stored : s.currOutput.contentLength ≤ p.outputBufferSize)
    (build : p.outputBufferSize.toNat + 120 < 65536)
    : FreshSegment s := by
  refine ⟨buffer, ?_⟩
  rw [UInt16.le_iff_toNat_le] at stored
  have size : serviceHeadersSize s.currOutput.serviceHeader ≤ 80 := by
    cases s.currOutput.serviceHeader <;> decide
  omega

theorem FreshSegment.length_content (generated : FreshSegment s)
    : s.currOutput.contentLength.toNat = (currContent s).length := by
  cases buffer : s.currOutput.buffer with
  | none => simp [currContent, buffer, generated.buffer buffer]
  | some a => simp [currContent, buffer]

/-- The length of a control packet is the one of its options. -/
theorem control_length {length flags : UInt8}
    (control : (p.handler e.outputHandler).data = .control length flags)
    : length.toUInt16.toNat = (synOptions p e).length := by
  unfold synOptions isSyn getFlags
  rw [control]
  cases handler : e.outputHandler with
  | synack | ack | finack | rst =>
      rw [handler] at control
      cases control
      rfl
  | http404 | http505 =>
      rw [handler] at control
      cases control
  | resource index =>
      rw [handler] at control
      exact absurd control (p.resource_ne_control index length flags)

theorem addSynOptions_sums {k : Checksum} {v : ZMod 65535} (sums : k.Sums false v)
    : (addSynOptions p e k).Sums false (v + weight false (synOptions p e)) := by
  unfold addSynOptions synOptions
  split
  · have added := (sums.add16 mssOpt).add16 e.tcpMss
    have last := weight_bytes16 e.tcpMss []
    rw [List.append_nil] at last
    rw [weight_bytes16, last, ← add_assoc, weight, add_zero]
    exact added
  · simpa [weight] using sums

/-- A control packet, with its options. -/
theorem packetBytes_control (control : p.isControl e.outputHandler)
    : ∃ bytes, packetBytes p s e = some bytes ∧ Verifies bytes := by
  cases handler : (p.handler e.outputHandler).data with
  | control length flags =>
      simp only [packetBytes, handler, Option.some.injEq, exists_eq_left']
      have short : (synOptions p e).length ≤ 4 := by
        unfold synOptions
        split <;> simp [bytes16]
      exact verifies_tcp (control_length handler) (by omega) (headerChecksum_sums _)
        (addSynOptions_sums (headerChecksum_sums _))
  | file _ => simp [Program.isControl, handler] at control
  | generator _ => simp [Program.isControl, handler] at control
  | generalIp _ => simp [Program.isControl, handler] at control

/-- A segment of a generator. -/
theorem packetBytes_generator (generator : p.isGenerator e.outputHandler) (generated : FreshSegment s)
    : ∃ bytes, packetBytes p s e = some bytes ∧ Verifies bytes := by
  cases handler : (p.handler e.outputHandler).data with
  | generator _ =>
      simp only [packetBytes, handler, Option.some.injEq, exists_eq_left']
      have fits := generated.fits
      have length : (s.currOutput.contentLength
          + UInt16.ofNat (serviceHeadersSize s.currOutput.serviceHeader)).toNat
          = (generatorPayload s.currOutput.serviceHeader (currContent s)).length := by
        rw [length_generatorPayload, ← generated.length_content, UInt16.toNat_add,
          UInt16.toNat_ofNat']
        omega
      refine verifies_tcp length ?_ (headerChecksum_sums _)
        (addContent_sums (headerChecksum_sums _) generated.length_content)
      rw [length_generatorPayload, ← generated.length_content]
      exact fits
  | control _ _ => simp [Program.isGenerator, handler] at generator
  | file _ => simp [Program.isGenerator, handler] at generator
  | generalIp _ => simp [Program.isGenerator, handler] at generator

/-- The bytes written carry the packet of the connection: its options and its payload stand behind
its headers.
-/
theorem packetBytes_packetFor {c : HttpConnection} {h : HandlerRef} {bytes payload : List UInt8}
    (written : packetBytes p s (HttpConnection.endpoint c h) = some bytes)
    (content : segmentPayload p s c h = some payload)
    : ∃ length checksum, bytes = tcpIpHeader p length c.ipAddr
        ++ tcpHeader p (HttpConnection.endpoint c h) checksum ++ (segmentOptions p c h ++ payload) := by
  unfold packetBytes at written
  unfold segmentPayload at content
  cases handler : (p.handler h).data with
  | control length flags =>
      simp only [HttpConnection.endpoint, handler, Option.some.injEq] at written content
      rw [← written, ← content, List.append_nil]
      exact ⟨_, _, rfl⟩
  | generator resource =>
      have syn : segmentOptions p c h = [] := by
        simp only [segmentOptions, isSyn, getFlags, handler]
        rfl
      simp only [HttpConnection.endpoint, handler, Option.some.injEq] at written content
      split at content
      · cases content
      · rw [Option.some.injEq] at content
        rw [← written, ← content, syn, List.nil_append]
        exact ⟨_, _, rfl⟩
  | file _ => simp [HttpConnection.endpoint, handler] at written
  | generalIp _ => simp [HttpConnection.endpoint, handler] at written

end Emitted

end Smews.Output
