import Smews.Input.Segment

/-! `smews_receive` for a TCP segment, and for a packet of another protocol. As in the source
the work is done on `tmp_connection`, and what has effects outside the parser waits for the
checksum.
-/

namespace Smews.Input

open Smews.Core

/-- A segment to be received, behind a valid IP header. `checksumValid` tells whether its TCP
checksum is right.
-/
structure TcpSegment where
  srcAddr : UInt32
  srcPort : UInt16
  dstPort : UInt16
  seqno : UInt32
  ackno : UInt32
  flags : UInt8
  window : UInt16
  options : List UInt8
  payload : List UInt8
  checksumValid : Bool
  fits : 40 + options.length + payload.length < 65536

namespace TcpSegment

variable (seg : TcpSegment)

/-- `segment_length`. -/
def segmentLength : UInt32 := UInt32.ofNat seg.payload.length

/-- `current_inseqno` after the length was added. -/
def endSeqno : UInt32 := seg.seqno + seg.segmentLength

def has (flag : UInt8) : Bool := seg.flags &&& flag != 0

end TcpSegment

--------------------------------------------------
-- TCP
--------------------------------------------------

/-- `tmp_connection` for a peer without connection. The fields that the source does not set
hold garbage.
-/
def listenConnection (p : Program) (s : Server) (seg : TcpSegment) : HttpConnection :=
  {
    ipAddr := seg.srcAddr
    port := seg.srcPort
    outputHandler := none
    tcpMss := p.garbage % 0x1000
    tcpState := .listen
    nextOutseqno := 0x42b7a491
    finalOutseqno := p.garbage.toUInt32
    currentInseqno := 0
    cwnd := p.garbage
    inflight := 0
    generatorService := none
    transmissionTime := s.lastTransmissionTime
    cometPassive := false
    cometSendAck := false
    cometStreaming := p.garbage % 2 = 1
    request := {
      parsingState := .out
      blob := []
      args := .uninit
      currArg := p.garbage.toNat
      argRefIndex := p.garbage.toUInt8
      postUrlDetected := false
      postData := none
      readyToSend := true
    }
  }

/-- Whether a connection is the one of a peer. -/
def isPeer (seg : TcpSegment) (c : Connection) : Bool :=
  match c.protocol with
  | .http c => c.port = seg.srcPort && c.ipAddr = seg.srcAddr
  | .gpip _ => false

/-- The connection of the sender: its position in the ring, and `tmp_connection`. -/
def findConnection (p : Program) (s : Server) (seg : TcpSegment) : Option Nat × HttpConnection :=
  match s.connections.findIdx? (isPeer seg) with
  | none => (none, listenConnection p s seg)
  | some i =>
      match s.connections[i]? with
      | some ⟨_, .http c⟩ => (some i, c)
      | _ => (none, listenConnection p s seg)

/-- The acknowledgement of a segment: `tmp_connection` with its window moved, and whether
in-flight segments are to be cleaned.
-/
def acknowledge (c : HttpConnection) (ackno : UInt32) : HttpConnection × Bool :=
  let c := if c.nextOutseqno - c.inflight.toUInt32 = ackno then { c with nextOutseqno := ackno } else c
  if ackno ≠ 0 ∧ ackno ≤ c.nextOutseqno then
    ({ c with inflight := (c.nextOutseqno - ackno).toUInt16 }, c.generatorService.isSome)
  else
    (c, false)

/-- Whether the response was sent and acknowledged. -/
def responseDone (p : Program) (c : HttpConnection) : Bool :=
  c.outputHandler.isSome && c.inflight = 0 && !c.somethingToSend p

/-- The output handler is cleared after its response. The arguments of a generator are to be
freed then, with the size that its handler gives.
-/
def clearHandler (p : Program) (c : HttpConnection) : HttpConnection × Option (Pointer × UInt16) :=
  if responseDone p c then
    let size := (c.outputHandler.map fun h => (p.handler h).args.argsSize).getD 0
    let defer := if c.generatorService.isSome then some (c.request.args, size) else none
    (if c.cometStreaming then c else { c with outputHandler := none }, defer)
  else
    (c, none)

/-- The TCP state machine, for a segment that does not end before `current_inseqno`. -/
def tcpTransition (seg : TcpSegment) (c : HttpConnection) : HttpConnection :=
  match c.tcpState with
  | .established =>
      if seg.has tcpFin then
        {
          c with
          tcpState := .lastAck
          outputHandler := some .finack
          currentInseqno := c.currentInseqno + 1
        }
      else if seg.has tcpRst then { c with tcpState := .listen }
      else c
  | .listen =>
      if seg.has tcpSyn then
        {
          c with
          tcpState := .synRcvd
          outputHandler := some .synack
          currentInseqno := c.currentInseqno + 1
        }
      else c
  | .synRcvd =>
      if c.inflight = 0 then { c with tcpState := .established }
      else { c with outputHandler := some .synack }
  | .lastAck => { c with tcpState := .listen }
  | .closing => c

/-- The sequence number of a segment: whether it ends with new data, and the state machine. -/
def sequence (seg : TcpSegment) (c : HttpConnection) : Bool × HttpConnection :=
  let newTcpData := c.currentInseqno < seg.endSeqno
  if c.currentInseqno ≤ seg.endSeqno then
    (newTcpData, tcpTransition seg { c with currentInseqno := seg.endSeqno })
  else
    (newTcpData, c)

/-- The window and the options. The last two bytes of the first option are taken for an MSS. -/
def negotiate (p : Program) (seg : TcpSegment) (c : HttpConnection) : HttpConnection :=
  let c := { c with cwnd := seg.window }
  match seg.options with
  | _ :: _ :: high :: low :: _ =>
      let mss := high.toUInt16 * 256 + low.toUInt16
      { c with tcpMss := (if p.maxMss < mss then p.maxMss else mss) % 0x1000 }
  | _ => c

--------------------------------------------------
-- HTTP
--------------------------------------------------

/-- The response to a request is set up when its handler is known. -/
def beginResponse (p : Program) (ackno : UInt32) (handler : HandlerRef) (c : HttpConnection)
    : HttpConnection :=
  let finalOutseqno :=
    match (p.handler handler).data with
    | .file file => ackno + UInt32.ofNat file.data.length
    | _ => ackno - 1
  {
    c with
    outputHandler := some handler
    nextOutseqno := ackno
    finalOutseqno
    cometSendAck := (p.handler handler).handlerComet
    cometPassive := false
    cometStreaming := false
  }

/-- Whether the data of a segment goes to the parser. -/
def isParsed (seg : TcpSegment) (newTcpData : Bool) (c : HttpConnection) : Bool :=
  seg.payload ≠ [] && c.tcpState = .established && (newTcpData || c.outputHandler.isNone)

/-- `tmp_connection` after the parser ran. -/
def afterParsing (p : Program) (ackno : UInt32) (c : HttpConnection) (o : Outcome) : HttpConnection :=
  let c :=
    if c.request.parsingState = .out then { c with outputHandler := none, request := o.request }
    else { c with request := o.request }
  match o.selected with
  | none => c
  | some handler => beginResponse p ackno handler c

/-- The handler of a plain acknowledgement is queued for data when there is no other one. -/
def queueAck (seg : TcpSegment) (c : HttpConnection) : HttpConnection :=
  if c.outputHandler.isNone ∧ c.tcpState = .established ∧ seg.payload ≠ [] then
    { c with outputHandler := some .ack }
  else c

/-- What waits for the checksum: `tmp_connection`, the heap that the parser has already
changed, the bytes it did not read, and the deferred work.
-/
structure Pending where
  connection : HttpConnection
  heap : Heap
  dropped : List UInt8
  cleanService : Bool
  freeHandler : Option (Pointer × UInt16)

/-- `tmp_connection` when the parser is about to run, and the deferred work. -/
def beforeParsing (p : Program) (seg : TcpSegment) (c : HttpConnection)
    : Bool × HttpConnection × Bool × Option (Pointer × UInt16) :=
  let (c, cleanService) := acknowledge c seg.ackno
  let (c, freeHandler) := clearHandler p c
  let (newTcpData, c) := sequence seg c
  (newTcpData, negotiate p seg c, cleanService, freeHandler)

/-- A segment up to its checksum, or the heap left behind by a `return` from the parser. -/
def process (p : Program) (seg : TcpSegment) (c : HttpConnection) (heap : Heap)
    : Option (Pending ⊕ Heap) := do
  let (newTcpData, c, cleanService, freeHandler) := beforeParsing p seg c
  if isParsed seg newTcpData c then
    match ← parseSegment p c.request heap c.outputHandler seg.payload with
    | .returned heap => some (.inr heap)
    | .parsed o =>
        some (.inl {
          connection := queueAck seg (afterParsing p seg.ackno c o)
          heap := o.heap
          dropped := o.dropped
          cleanService
          freeHandler
        })
  else
    some (.inl {
      connection := queueAck seg c
      heap
      dropped := seg.payload
      cleanService
      freeHandler
    })

--------------------------------------------------
-- The commit
--------------------------------------------------

/-- The deferred work on the generator service. -/
def commitService (p : Program) (ackno : UInt32) (d : Pending) (s : Server)
    : Option (HttpConnection × Server) :=
  match d.connection.generatorService with
  | some a =>
      if d.cleanService then
        let s := s.cleanService p a (some ackno)
        match d.freeHandler with
        | none => some (d.connection, s)
        | some (args, size) => do
            let heap := s.heap.crClean (.service a)
            let heap := heap.memFree (some a) p.sizeofService
            let heap ← heap.memFreePointer args size
            some ({ d.connection with generatorService := none }, { s with heap })
      else some (d.connection, s)
  | none => some (d.connection, s)

/-- The commit of a segment whose checksum is right. -/
def commit (p : Program) (seg : TcpSegment) (i : Option Nat) (d : Pending) (s : Server)
    : Option Server := do
  let (c, s) ← commitService p seg.ackno d s
  match i with
  | some i => if c.tcpState = .listen then s.freeConnection p i else some (s.setHttp i c)
  | none =>
      let rst : RstConnection := {
        ipAddr := c.ipAddr
        port := c.port
        currentInseqno := c.currentInseqno
        nextOutseqno := seg.ackno
      }
      if c.tcpState = .synRcvd then
        match s.addConnection p (.http c) with
        | (none, s) => some { s with rstConnection := rst }
        | (some _, s) => some s
      else some { s with rstConnection := rst }

/-- `smews_receive` for a segment. Only the low byte of the destination port is compared. -/
def smewsReceive (p : Program) (seg : TcpSegment) (s : Server) : Option Server := do
  if seg.dstPort % 256 = 80 then
    let (i, c) := findConnection p s seg
    match ← process p seg c s.heap with
    | .inr heap => some { s with heap }
    | .inl d =>
        let s := { s with heap := d.heap }
        if seg.checksumValid then commit p seg i d s else some s
  else
    some s

/-- `smews_receive` for a packet of another protocol: a connection is added for it and freed
again unless `dopacketin` asks for an answer.
-/
def smewsReceiveGpIp (p : Program) (srcAddr : UInt32) (protocol : UInt8) (payload : List UInt8)
    (s : Server)
    : Option Server := do
  match p.gpIpGetOutputHandler protocol with
  | none => some s
  | some handler =>
      match (p.handler handler).data with
      | .generalIp g =>
          let c := {
            ipAddr := srcAddr
            outputHandler := handler
            payloadSize := UInt16.ofNat payload.length
            protocol
            wantToSend := p.garbage.toUInt8
          }
          match s.addConnection p (.gpip c) with
          | (none, s) => some s
          | (some a, s) =>
              let last := s.connections.length - 1
              let wantToSend := g.dopacketin s.heap.starts s.packetCalls (c.info a) payload
              let s := { s.setGpIp last { c with wantToSend } with
                packetCalls := s.packetCalls ++ [.packetIn handler (c.info a) payload wantToSend]
              }
              if wantToSend = 0 then s.freeConnection p last else some s
      | _ => none

end Smews.Input
