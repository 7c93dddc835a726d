import Smews.Core.Connections

/-! `smews_send_packet`: the headers and contents of an emitted segment, and the update of the
connection.
-/

namespace Smews.Output

open Smews.Core

--------------------------------------------------
-- HTTP headers
--------------------------------------------------

def serviceHttpHeader : List UInt8 := ascii "HTTP/1.1 200 OK\r\nContent-Length:"

def serviceHttpHeaderPart2 : List UInt8 := ascii "\r\nContent-Type: text/plain\r\n\r\n"

def serviceHttpHeaderChunked : List UInt8 :=
  ascii "HTTP/1.1 200 OK\r\nContent-Type: text/plain\r\nTransfer-Encoding:chunked\r\n\r\n"

def contentLengthSize : Nat := 6
def chunkLengthSize : Nat := 4

/-- `_service_headers_size`, less the cast to a byte, which all three sizes fit. -/
def serviceHeadersSize : ServiceHeader → Nat
  | .standard => 32 + 30 + contentLengthSize
  | .chunks => 72 + (chunkLengthSize + 4)
  | .none => chunkLengthSize + 4

/-- The last digits of a length in a base, most significant first. -/
def digits (base : Nat) (digit : Nat → UInt8) : Nat → Nat → List UInt8
  | 0, _ => []
  | n + 1, length => digits base digit n (length / base) ++ [digit (length % base)]

def decimalDigit (d : Nat) : UInt8 := UInt8.ofNat (48 + d)

def hexDigit (d : Nat) : UInt8 := if d < 10 then UInt8.ofNat (48 + d) else UInt8.ofNat (87 + d)

/-- The payload of a generator segment: the HTTP header or the length of a chunk, and the
contents.
-/
def generatorPayload (header : ServiceHeader) (content : List UInt8) : List UInt8 :=
  match header with
  | .standard =>
      serviceHttpHeader ++ digits 10 decimalDigit contentLengthSize content.length
        ++ serviceHttpHeaderPart2 ++ content
  | .chunks =>
      serviceHttpHeaderChunked ++ digits 16 hexDigit chunkLengthSize content.length
        ++ [13, 10] ++ content ++ [13, 10]
  | .none =>
      digits 16 hexDigit chunkLengthSize content.length ++ [13, 10] ++ content ++ [13, 10]

/-- The number of digits is the one asked for, by induction on it. -/
theorem length_digits (base : Nat) (digit : Nat → UInt8) (n length : Nat)
    : (digits base digit n length).length = n := by
  induction n generalizing length with
  | zero => rfl
  | succ n ih => simp [digits, ih]

/-- The header sizes of the source are those of the bytes emitted. -/
theorem length_generatorPayload (header : ServiceHeader) (content : List UInt8)
    : (generatorPayload header content).length = content.length + serviceHeadersSize header := by
  have h1 : serviceHttpHeader.length = 32 := by decide
  have h2 : serviceHttpHeaderPart2.length = 30 := by decide
  have h3 : serviceHttpHeaderChunked.length = 72 := by decide
  cases header <;>
    simp only [generatorPayload, List.length_append, length_digits, h1, h2, h3,
      List.length_cons, List.length_nil, serviceHeadersSize, contentLengthSize,
      chunkLengthSize] <;>
    omega

--------------------------------------------------
-- Segments
--------------------------------------------------

/-- `GET_FLAGS`. -/
def getFlags (p : Program) (h : HandlerRef) : UInt8 :=
  match (p.handler h).data with
  | .control _ flags => flags
  | _ => tcpAck ||| tcpPsh

/-- `GET_FLAGS(output_handler) & TCP_SYN`. -/
def isSyn (p : Program) (h : HandlerRef) : Bool := getFlags p h &&& tcpSyn != 0

/-- The first `content_length` bytes of `curr_output.buffer`. -/
def currContent (s : Server) : List UInt8 :=
  match s.currOutput.buffer with
  | none => []
  | some a => (List.range s.currOutput.contentLength.toNat).map fun i => s.heap.chars a i

/-- The segment of a file that starts at the current position: the bytes left, at most
`MAX_OUT_SIZE`. The position is undefined outside the file.
-/
def filePayload (p : Program) (c : HttpConnection) (file : StaticResource) : Option (List UInt8) :=
  let remaining := (c.finalOutseqno - c.nextOutseqno).toNat
  let length := min remaining (p.maxOutSize c.tcpMss)
  if remaining ≤ file.data.length then
    some ((file.data.drop (file.data.length - remaining)).take length)
  else
    none

/-- The payload of the segment that a handler emits on a connection. An empty buffer holds the
terminating chunk.
-/
def segmentPayload (p : Program) (s : Server) (c : HttpConnection) (h : HandlerRef)
    : Option (List UInt8) :=
  match (p.handler h).data with
  | .control _ _ => some []
  | .file file => filePayload p c file
  | .generator _ =>
      if s.currOutput.buffer.isNone ∧ s.currOutput.contentLength ≠ 0 then none
      else some (generatorPayload s.currOutput.serviceHeader (currContent s))
  | .generalIp _ => none

/-- The TCP options: the MSS in a `SYN`. -/
def segmentOptions (p : Program) (c : HttpConnection) (h : HandlerRef) : List UInt8 :=
  if isSyn p h then [2, 4, (c.tcpMss >>> 8).toUInt8, c.tcpMss.toUInt8] else []

/-- The sequence numbers after a segment. The end of a response is known with its last
segment.
-/
def advance (p : Program) (s : Server) (c : HttpConnection) (h : HandlerRef) (length : Nat)
    : HttpConnection :=
  if isSyn p h then
    { c with nextOutseqno := c.nextOutseqno + 1 }
  else
    let c := {
      c with
      nextOutseqno := c.nextOutseqno + UInt32.ofNat length
      inflight := c.inflight + UInt16.ofNat length
    }
    match (p.handler h).data with
    | .generator _ =>
        if s.currOutput.serviceHeader = .standard ∨ s.currOutput.contentLength = 0 then
          { c with finalOutseqno := c.nextOutseqno }
        else c
    | _ => c

/-- The packet that carries a payload. -/
def packetFor (p : Program) (c : HttpConnection) (h : HandlerRef) (payload : List UInt8) : Packet :=
  {
    destination := c.ipAddr
    body := .tcp c.port c.nextOutseqno c.currentInseqno (getFlags p h) (segmentOptions p c h)
      payload
  }

/-- `smews_send_packet` for an HTTP connection of the ring. -/
def sendPacket (p : Program) (i : Nat) (s : Server) : Option Server := do
  let ⟨addr, protocol⟩ ← s.connections[i]?
  match protocol with
  | .gpip _ => none
  | .http c => do
      let h ← c.outputHandler
      let payload ← segmentPayload p s c h
      let c' := { advance p s c h payload.length with transmissionTime := s.lastTransmissionTime }
      let packet := packetFor p c h payload
      some {
        s.setHttp i c' with
        sent := s.sent ++ [(some addr, packet)]
        outputDone := s.outputDone ++ [(s.getCurrentRemoteIp, packet)]
      }

/-- What an emission consists of. -/
theorem sendPacket_spec {p : Program} {i : Nat} {s s' : Server} (send : sendPacket p i s = some s')
    : ∃ addr c h payload, s.connections[i]? = some ⟨addr, .http c⟩
      ∧ c.outputHandler = some h ∧ segmentPayload p s c h = some payload
      ∧ s' = {
        s.setHttp i { advance p s c h payload.length with
          transmissionTime := s.lastTransmissionTime } with
        sent := s.sent ++ [(some addr, packetFor p c h payload)]
        outputDone := s.outputDone ++ [(s.getCurrentRemoteIp, packetFor p c h payload)]
      } := by
  unfold sendPacket at send
  cases at_i : s.connections[i]? with
  | none => simp [at_i] at send
  | some connection =>
      obtain ⟨addr, protocol⟩ := connection
      cases protocol with
      | gpip g => simp [at_i] at send
      | http c =>
          cases handler : c.outputHandler with
          | none => simp [at_i, handler] at send
          | some h =>
              cases content : segmentPayload p s c h with
              | none => simp [at_i, handler, content] at send
              | some payload =>
                  simp only [at_i, handler, content, Option.bind_eq_bind, Option.bind_some,
                    Option.some.injEq] at send
                  exact ⟨addr, c, h, payload, rfl, handler, content, send.symm⟩

/-- The length of a generator segment. -/
theorem segmentPayload_generator {p : Program} {s : Server} {c : HttpConnection} {h : HandlerRef}
    {resource : DynamicResource} {payload : List UInt8}
    (generator : (p.handler h).data = .generator resource)
    (content : segmentPayload p s c h = some payload)
    : payload.length
      = s.currOutput.contentLength.toNat + serviceHeadersSize s.currOutput.serviceHeader := by
  simp only [segmentPayload, generator] at content
  split at content
  · cases content
  · rename_i stored
    simp only [Option.some.injEq] at content
    rw [← content, length_generatorPayload]
    cases buffer : s.currOutput.buffer with
    | none =>
        have empty : s.currOutput.contentLength = 0 := by
          by_contra nonempty
          exact stored ⟨by simp [buffer], nonempty⟩
        simp [currContent, buffer, empty]
    | some a => simp [currContent, buffer]

/-- A segment of a file is at most as long as the MSS rounded to whole chunks. -/
theorem segmentPayload_file {p : Program} {s : Server} {c : HttpConnection} {h : HandlerRef}
    {file : StaticResource} {payload : List UInt8}
    (isFile : (p.handler h).data = .file file) (content : segmentPayload p s c h = some payload)
    : payload.length ≤ p.maxOutSize c.tcpMss := by
  simp only [segmentPayload, isFile, filePayload] at content
  split at content
  · simp only [Option.some.injEq] at content
    rw [← content, List.length_take]
    omega
  · cases content

/-- `smews_send_packet(NULL)`. -/
def sendRst (s : Server) : Server :=
  let r := s.rstConnection
  let packet := {
    destination := r.ipAddr
    body := .tcp r.port r.nextOutseqno r.currentInseqno (tcpRst ||| tcpAck) [] []
  }
  {
    s with
    sent := s.sent ++ [(none, packet)]
    outputDone := s.outputDone ++ [(s.getCurrentRemoteIp, packet)]
    rstConnection := { r with port := 0 }
  }

end Smews.Output
