import Smews.Input.Received
import Smews.System.EmittedPackets
import Smews.System.ReceivedPackets

/-! Packets from one server to another one: what `smews_receive` reads of the bytes that `smews_send_packet` wrote.
-/

namespace Smews.System

open Smews.Core Input Input.Device Output ByteSource Partial OnesComplement

--------------------------------------------------
-- Words
--------------------------------------------------

theorem word16_bytes16 (word : UInt16) : word16 (word >>> 8).toUInt8 word.toUInt8 = word := by
  rw [← UInt16.toNat_inj, word16_toNat, bytes16_toNat]

theorem word32_bytes32 (dword : UInt32)
    : word32 (dword >>> 24).toUInt8 (dword >>> 16).toUInt8 (dword >>> 8).toUInt8 dword.toUInt8 = dword := by
  have small := dword.toNat_lt
  rw [← UInt32.toNat_inj, word32_toNat]
  simp only [UInt32.toNat_toUInt8, UInt32.toNat_shiftRight, UInt32.reduceToNat, Nat.reduceMod,
    Nat.shiftRight_eq_div_pow, Nat.reducePow]
  omega

--------------------------------------------------
-- The bytes of a packet
--------------------------------------------------

/-- The packet of an endpoint. -/
def packetOf (p : Program) (e : Endpoint) (payload : List UInt8) : Packet :=
  {
    destination := e.ipAddr
    body := .tcp e.port e.nextOutseqno e.currentInseqno (getFlags p e.outputHandler) (synOptions p e) payload
  }

/-- The bytes that are written for a packet. -/
structure Written (p : Program) (e : Endpoint) (payload bytes : List UInt8) : Prop where
  headers : ∃ length checksum,
    bytes = tcpIpHeader p length e.ipAddr ++ tcpHeader p e checksum ++ (synOptions p e ++ payload)
  verifies : Verifies bytes

/-- A segment brings the fields of a packet that a server sent. -/
structure Carries (p : Program) (packet : Packet) (seg : TcpSegment) : Prop where
  srcAddr : seg.srcAddr = p.localIpAddr
  srcPort : seg.srcPort = tcpSrcPort
  window : seg.window = tcpWindow
  body : packet.body = .tcp seg.dstPort seg.seqno seg.ackno seg.flags seg.options seg.payload
  valid : seg.checksumValid

section Bytes

variable {p q : Program} {e : Endpoint} {payload bytes : List UInt8}

theorem Written.split (written : Written p e payload bytes)
    : ∃ front : List UInt8, front.length = 40 ∧ bytes = front ++ (synOptions p e ++ payload) := by
  obtain ⟨length, checksum, rfl⟩ := written.headers
  refine ⟨_, ?_, rfl⟩
  rw [List.length_append, tcpIpHeader, length_ipHeader, length_tcpHeader]

theorem Written.version (written : Written p e payload bytes) : byteAt bytes 0 = 0x45 := by
  obtain ⟨length, checksum, rfl⟩ := written.headers
  rfl

theorem Written.whole (written : Written p e payload bytes) : ¬ IsFragment (byteAt bytes) := by
  have zero : byteAt bytes 6 = 0 ∧ byteAt bytes 7 = 0 := by
    obtain ⟨length, checksum, rfl⟩ := written.headers
    exact ⟨rfl, rfl⟩
  simp [IsFragment, zero]

theorem Written.protocol (written : Written p e payload bytes) : byteAt bytes 9 = 6 := by
  obtain ⟨length, checksum, rfl⟩ := written.headers
  rfl

/-- The addresses of a packet. -/
theorem Written.addresses (written : Written p e payload bytes)
    : word32 (byteAt bytes 12) (byteAt bytes 13) (byteAt bytes 14) (byteAt bytes 15) = p.localIpAddr
      ∧ (bytes.drop 12).take 4 = [byteAt bytes 12, byteAt bytes 13, byteAt bytes 14, byteAt bytes 15]
      ∧ (bytes.drop 16).take 4 = bytes32 e.ipAddr := by
  obtain ⟨length, checksum, rfl⟩ := written.headers
  exact ⟨word32_bytes32 p.localIpAddr, rfl, rfl⟩

/-- The ports of a packet. -/
theorem Written.ports (written : Written p e payload bytes)
    : word16 (byteAt bytes 20) (byteAt bytes 21) = tcpSrcPort
      ∧ word16 (byteAt bytes 22) (byteAt bytes 23) = e.port := by
  obtain ⟨length, checksum, rfl⟩ := written.headers
  exact ⟨word16_bytes16 tcpSrcPort, word16_bytes16 e.port⟩

/-- The numbers of a packet. -/
theorem Written.numbers (written : Written p e payload bytes)
    : word32 (byteAt bytes 24) (byteAt bytes 25) (byteAt bytes 26) (byteAt bytes 27) = e.nextOutseqno
      ∧ word32 (byteAt bytes 28) (byteAt bytes 29) (byteAt bytes 30) (byteAt bytes 31) = e.currentInseqno := by
  obtain ⟨length, checksum, rfl⟩ := written.headers
  exact ⟨word32_bytes32 e.nextOutseqno, word32_bytes32 e.currentInseqno⟩

theorem Written.flags (written : Written p e payload bytes)
    : byteAt bytes 33 = getFlags p e.outputHandler
      ∧ word16 (byteAt bytes 34) (byteAt bytes 35) = tcpWindow := by
  obtain ⟨length, checksum, rfl⟩ := written.headers
  exact ⟨rfl, word16_bytes16 tcpWindow⟩

/-- The data offset counts the options. -/
theorem Written.offset (written : Written p e payload bytes)
    : (headerLength (byteAt bytes)).toNat = 20 + (synOptions p e).length := by
  obtain ⟨length, checksum, rfl⟩ := written.headers
  show ((dataOffset p e.outputHandler >>> 4) * 4).toNat = _
  unfold dataOffset synOptions
  split <;> rfl

theorem Written.totalLength (written : Written p e payload bytes)
    : (word16 (byteAt bytes 2) (byteAt bytes 3)).toNat = bytes.length :=
  (word16_toNat _ _).trans written.verifies.totalLength

theorem Written.options (written : Written p e payload bytes)
    : (bytes.drop 40).take ((headerLength (byteAt bytes)).toNat - 20) = synOptions p e := by
  obtain ⟨front, length, split⟩ := written.split
  rw [written.offset, Nat.add_sub_cancel_left, split, ← length, List.drop_left, List.take_left]

theorem Written.data (written : Written p e payload bytes)
    : bytes.drop (20 + (headerLength (byteAt bytes)).toNat) = payload := by
  obtain ⟨front, length, split⟩ := written.split
  have place : 20 + (20 + (synOptions p e).length) = front.length + (synOptions p e).length := by omega
  rw [written.offset, place, split, ← List.drop_drop, List.drop_left, List.drop_left]

/-- The packet that a receiver finds in the bytes. -/
def Written.received (written : Written p e payload bytes) (port : e.port = 80) : TcpPacket :=
  {
    bytes
    version := written.version
    totalLength := written.totalLength
    whole := written.whole
    protocol := written.protocol
    headerSum := written.verifies.header
    port := written.ports.2.trans port
    offset_ge := by rw [written.offset]; exact Nat.le_add_right _ _
    offset_le := by
      obtain ⟨front, length, split⟩ := written.split
      rw [written.offset, split, List.length_append, List.length_append]
      omega
  }

/-- The receiver sums what the sender summed. -/
theorem Written.pseudoHeader (written : Written p e payload bytes) (here : q.localIpAddr = e.ipAddr)
    (port : e.port = 80)
    : Device.pseudoHeader q (byteAt bytes) = Output.pseudoHeader bytes := by
  obtain ⟨-, source, destination⟩ := written.addresses
  have addresses : (bytes.drop 12).take 8 = (bytes.drop 12).take 4 ++ (bytes.drop 16).take 4 := by
    rw [show 8 = 4 + 4 from rfl, List.take_add, List.drop_drop]
  have length : (ipFields (byteAt bytes)).packetLength = UInt16.ofNat (bytes.length - 20) := by
    have counted : (ipFields (byteAt bytes)).packetLength.toNat = bytes.length - 20 :=
      (written.received port).packetLength
    rw [← counted, UInt16.ofNat_toNat]
  have protocol : bytes.getD 9 0 = 6 := written.protocol
  rw [Device.pseudoHeader, Output.pseudoHeader, addresses, source, destination, here, length, protocol]

theorem Written.carries (written : Written p e payload bytes) (here : q.localIpAddr = e.ipAddr) (port : e.port = 80)
    : Carries p (packetOf p e payload) ((written.received port).segment q) where
  srcAddr := written.addresses.1
  srcPort := written.ports.1
  window := written.flags.2
  body := by
    rw [packetOf, ← written.ports.2, ← written.numbers.1, ← written.numbers.2, ← written.flags.1, ← written.options]
    conv_lhs => rw [← written.data]
    rfl
  valid := by
    rw [TcpPacket.checksumValid, decide_eq_true_eq]
    show sum (Device.pseudoHeader q (byteAt bytes) ++ bytes.drop 20) = 0xffff
    rw [written.pseudoHeader here port, written.verifies.segment]

end Bytes

--------------------------------------------------
-- Emissions
--------------------------------------------------

section Emissions

variable {p q : Program} {s : Server} {bytes : List UInt8}

/-- The segment of an HTTP connection. -/
theorem connection_written {c : HttpConnection} {h : HandlerRef} {payload : List UInt8}
    (emits : p.isControl h ∨ p.isGenerator h ∧ FreshSegment s)
    (bytesOf : packetBytes p s (HttpConnection.endpoint c h) = some bytes)
    (content : segmentPayload p s c h = some payload)
    : Written p (HttpConnection.endpoint c h) payload bytes := by
  obtain ⟨length, checksum, split⟩ := packetBytes_packetFor bytesOf content
  obtain ⟨bytes', bytesOf', verifies⟩ := emitted_packet_verifies p s (HttpConnection.endpoint c h) emits
  cases bytesOf.symm.trans bytesOf'
  exact ⟨⟨length, checksum, split⟩, verifies⟩

/-- The bytes of a packet are received as the segment that carries it. -/
theorem Written.crosses {e : Endpoint} {payload : List UInt8} {t : Server} (written : Written p e payload bytes)
    (here : q.localIpAddr = e.ipAddr) (port : e.port = 80)
    : ∃ seg, Carries p (packetOf p e payload) seg
      ∧ ∀ {σ : Type} (src : Source σ) (d d' : σ) (k : Checksum), Delivers src (fun _ => False) (· = d') d bytes
        → (∀ heap, process q seg (findConnection q t seg).2 t.heap ≠ some (.inr heap))
        → ∃ k', Device.smewsReceive src q t ⟨d, k⟩ = (Input.smewsReceive q seg t).map (·, ⟨d', k'⟩) := by
  refine ⟨(written.received port).segment q, written.carries here port, ?_⟩
  intro σ src d d' k delivers prepared
  obtain ⟨k', -, receives⟩ := received_packet_summed_once q t (written.received port) src k delivers prepared
  exact ⟨k', receives⟩

/-- What one server writes for a connection, another one receives as the segment that carries the packet: with the same
numbers, flags, options and data, and with a valid checksum.
-/
theorem sent_packet_received {t : Server} {c : HttpConnection} {h : HandlerRef} {payload : List UInt8}
    (emits : p.isControl h ∨ p.isGenerator h ∧ FreshSegment s)
    (bytesOf : packetBytes p s (HttpConnection.endpoint c h) = some bytes)
    (content : segmentPayload p s c h = some payload) (here : q.localIpAddr = c.ipAddr) (port : c.port = 80)
    : ∃ seg, Carries p (packetFor p c h payload) seg
      ∧ ∀ {σ : Type} (src : Source σ) (d d' : σ) (k : Checksum), Delivers src (fun _ => False) (· = d') d bytes
        → (∀ heap, process q seg (findConnection q t seg).2 t.heap ≠ some (.inr heap))
        → ∃ k', Device.smewsReceive src q t ⟨d, k⟩ = (Input.smewsReceive q seg t).map (·, ⟨d', k'⟩) :=
  (connection_written emits bytesOf content).crosses here port

end Emissions

/-- A build at another address. -/
def neighbour (p : Program) : Program := { p with localIpAddr := 0xc0a80105 }

/-- The connection of a neighbour that sends from port 80. -/
def neighbourConnection : HttpConnection :=
  listenConnection (oneGenerator hello noArgs) bootServer
    { clientSegment 1000 0 tcpSyn 8192 [] [] bare_fits with srcPort := 80 }

/-- A `SYN` and `ACK` is read from a device that holds it alone. -/
theorem sent_packet_received_synack
    : ∃ bytes seg, Carries (oneGenerator hello noArgs)
          (packetFor (oneGenerator hello noArgs) neighbourConnection .synack []) seg
        ∧ ∃ k', Device.smewsReceive ofList (neighbour (oneGenerator hello noArgs)) bootServer ⟨bytes, Checksum.init⟩
          = (Input.smewsReceive (neighbour (oneGenerator hello noArgs)) seg bootServer).map (·, ⟨[], k'⟩) := by
  obtain ⟨bytes, bytesOf, -⟩ := emitted_packet_verifies (oneGenerator hello noArgs) bootServer
    (HttpConnection.endpoint neighbourConnection .synack) (.inl rfl)
  obtain ⟨seg, carries, receives⟩ := sent_packet_received (q := neighbour (oneGenerator hello noArgs)) (t := bootServer)
    (.inl rfl) bytesOf rfl rfl rfl
  have delivers := delivers_ofList bytes []
  rw [List.append_nil] at delivers
  refine ⟨bytes, seg, carries, receives ofList _ _ Checksum.init delivers fun heap returned => ?_⟩
  have body := carries.body
  simp only [packetFor, Body.tcp.injEq] at body
  obtain ⟨parsed, -⟩ := process_returned returned
  simp [isParsed, ← body] at parsed

end Smews.System
