import Smews.Input.Receive
import Smews.Library.Runs
import Smews.Output.Send

/-! The server as a transition system: received packets, `smews_send`, the retransmission
timer and the calls that applications make.
-/

namespace Smews.System

open Smews.Core Input Output Runs

--------------------------------------------------
-- Timers and applications
--------------------------------------------------

/-- A change of every HTTP connection of the ring. -/
def mapHttp (f : HttpConnection → HttpConnection) (s : Server) : Server :=
  {
    s with
    connections := s.connections.map fun connection =>
      match connection.protocol with
      | .http c => { connection with protocol := .http (f c) }
      | .gpip _ => connection
  }

/-- The roll-back of `smews_retransmit`. The times are compared as integers. -/
def rollBack (now : UInt8) (c : HttpConnection) : HttpConnection :=
  if c.outputHandler.isSome ∧ 4 < (now.toNat : Int) - c.transmissionTime.toNat ∧ 0 < c.inflight then
    { c with nextOutseqno := c.nextOutseqno - c.inflight.toUInt32, inflight := 0 }
  else c

/-- `smews_retransmit`. -/
def smewsRetransmit (s : Server) : Server :=
  let now := s.lastTransmissionTime + 1
  mapHttp (rollBack now) { s with lastTransmissionTime := now }

/-- `server_push`. -/
def serverPush (p : Program) (h : HandlerRef) (s : Server) : Server :=
  if (p.handler h).handlerComet then
    s |> mapHttp fun c =>
      if c.outputHandler = some h then
        { c with cometSendAck := false, finalOutseqno := c.nextOutseqno - 1 }
      else c
  else s

/-- `request_packet_out_call`. -/
def requestPacketOutCall (p : Program) (protocol : UInt8) (address : UInt32) (s : Server) : Server :=
  match p.gpIpGetOutputHandler protocol with
  | none => s
  | some handler =>
      (s.addConnection p (.gpip {
        ipAddr := address
        outputHandler := handler
        payloadSize := 0
        protocol
        wantToSend := 1
      })).2

--------------------------------------------------
-- Runs
--------------------------------------------------

inductive Event
  | receive (seg : TcpSegment)
  | receiveGpIp (srcAddr : UInt32) (protocol : UInt8) (payload : List UInt8)
  | send
  | retransmit
  | push (handler : HandlerRef)
  | packetOut (protocol : UInt8) (address : UInt32)

/-- The state after an event, unless the behaviour of the source is undefined. -/
def next (p : Program) (s : Server) : Event → Option Server
  | .receive seg => smewsReceive p seg s
  | .receiveGpIp srcAddr protocol payload => smewsReceiveGpIp p srcAddr protocol payload s
  | .send => smewsSend p s
  | .retransmit => some (smewsRetransmit s)
  | .push handler => some (serverPush p handler s)
  | .packetOut protocol address => some (requestPacketOutCall p protocol address s)

def Step (p : Program) (s : Server) (event : Event) (s' : Server) : Prop := next p s event = some s'

/-- Whether an event is a call of `smews_send`. -/
def Event.isSend : Event → Bool
  | .send => true
  | _ => false

/-- A server after `smews_init`. -/
structure Initial (s : Server) : Prop where
  calls : s.heap.calls = []
  crInStack : s.heap.crInStack = none
  connections : s.connections = []
  rstPort : s.rstConnection.port = 0
  time : s.lastTransmissionTime = 1
  sent : s.sent = []

/-- The server after `smews_init` when memory holds zeros and the allocator has room. -/
def bootServer : Server :=
  let coroutine := { func := .unset, currContext := { sp := 0, stack := none, stackSize := 0, status := .ready } }
  {
    heap := {
      next := 0
      calls := []
      exhausted := fun _ => false
      size := fun _ => 0
      chars := fun _ _ => 0
      boundary := fun _ => {
        boundaryRef := none
        boundaryBuffer := .uninit
        boundarySize := 0
        index := 0
        readyToCount := false
        multiPartCounter := 0
      }
      postData := fun _ => {
        contentLength := 0
        boundary := none
        filename := none
        postData := 0
        contentType := 0
      }
      coroutine := fun _ => coroutine
      savedStack := fun _ => .empty
      crInStack := none
      sharedStack := .empty
      starts := 0
    }
    service := fun _ => {
      currOutseqno := 0
      inFlightInfos := []
      serviceHeader := .none
      isPersistent := false
    }
    connections := []
    rstConnection := { ipAddr := 0, currentInseqno := 0, nextOutseqno := 0, port := 0 }
    currOutput := {
      service := none
      buffer := none
      contentLength := 0
      maxBytes := 0
      nextOutseqno := 0
      serviceHeader := .none
    }
    lastTransmissionTime := 1
    sent := []
    outputDone := []
    packetCalls := []
  }

theorem bootServer_initial : Initial bootServer := ⟨rfl, rfl, rfl, rfl, rfl, rfl⟩

--------------------------------------------------
-- A build with one resource
--------------------------------------------------

/-- An error page. -/
def errorPage (text : String) (nonempty : ascii text ≠ []) (fits : (ascii text).length < 0x100000000)
    : StaticResource :=
  ⟨ascii text, nonempty, fits⟩

/-- A build that serves one generator at `/a`. -/
def oneGenerator (resource : DynamicResource) (args : HandlerArgs) : Program :=
  {
    outputBufferSize := 256
    chuncksNbits := 5
    devMtu := some 1500
    localIpAddr := 0xc0a80104
    sizeofConnection := 64
    sizeofService := 32
    sizeofInFlightInfos := 16
    sizeofContext := 12
    sizeofPostData := 40
    sizeofBoundary := 16
    stackUse := fun _ => 64
    http404 := errorPage "HTTP/1.1 404 Not Found\r\n\r\n" (by decide) (by decide)
    http505 := errorPage "HTTP/1.1 505 HTTP Version Not Supported\r\n\r\n" (by decide) (by decide)
    resourceCount := 1
    resource := fun _ => {
      data := .generator resource
      handlerComet := false
      handlerStream := false
      args
      mimesIndex := []
    }
    urlsTree := Tools.genBlobTree [ascii "/a"]
    garbage := 0
    outputBufferSize_pos := by decide
    resource_ne_control := fun _ _ _ => HandlerData.noConfusion
  }

/-- No arguments. -/
def noArgs : HandlerArgs := { argsTree := [], argsIndex := [], argsSize := 0 }

/-- A generator that writes a text. -/
def writes : List UInt8 → Cont
  | [] => .ret 0
  | c :: text => .outC c (writes text)

/-- A page that is generated whenever it is requested. -/
def hello : DynamicResource := ⟨.get fun _ _ => writes (ascii "hello"), .idempotent⟩

/-- A segment of a client of port 4000. -/
def clientSegment (seqno ackno : UInt32) (flags : UInt8) (window : UInt16) (options payload : List UInt8)
    (fits : 40 + options.length + payload.length < 65536)
    : TcpSegment :=
  {
    srcAddr := 0xc0a80105
    srcPort := 4000
    dstPort := 80
    seqno, ackno, flags, window, options, payload
    checksumValid := true
    fits
  }

theorem bare_fits : 40 + ([] : List UInt8).length + ([] : List UInt8).length < 65536 := by decide

theorem getA_fits : 40 + ([] : List UInt8).length + (ascii "GET /a HTTP/1.1\r\n\r\n").length < 65536 := by decide

/-- A client that connects with an MSS and requests `/a`, up to the arrival of the request. -/
def requestOf (mss : UInt16) : List Event :=
  [
    .receive (clientSegment 1000 0 tcpSyn 8192 [2, 4, (mss >>> 8).toUInt8, mss.toUInt8] []
      (by simp)),
    .send,
    .receive (clientSegment 1001 0x42b7a492 tcpAck 8192 [] [] bare_fits),
    .receive (clientSegment 1001 0x42b7a492 (tcpAck ||| tcpPsh) 8192 []
      (ascii "GET /a HTTP/1.1\r\n\r\n") getA_fits)
  ]

end Smews.System
