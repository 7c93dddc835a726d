import Smews.Core.Heap

/-! Connections, generator services and the server state: `connections.h`, `connections.c`
and `service.c`.
-/

namespace Smews.Core

--------------------------------------------------
-- Connections
--------------------------------------------------

/-- `enum parsing_state_e`. -/
inductive ParsingState
  | out
  | cmd
  | url
  | ended
  | postAttributes
  | postEnd
  | postContentType
  | postArgs
  | postData
  | boundary
  | initBuffer
deriving DecidableEq, Repr

/-- The fields of `struct http_connection` that hold the request being parsed. `blob` is the
list of bytes from the pointer on, `currArg` an offset into the arguments block.
-/
structure Request where
  parsingState : ParsingState
  blob : List UInt8
  args : Pointer
  currArg : Nat
  argRefIndex : UInt8
  postUrlDetected : Bool
  postData : Option Addr
  readyToSend : Bool
deriving DecidableEq, Repr

/-- `enum tcp_state_e`. -/
inductive TcpState
  | listen
  | synRcvd
  | established
  | closing
  | lastAck
deriving DecidableEq, Repr

/-- `struct connection` with its `protocol.http` member. -/
structure HttpConnection where
  ipAddr : UInt32
  outputHandler : Option HandlerRef
  tcpMss : UInt16
  tcpState : TcpState
  nextOutseqno : UInt32
  finalOutseqno : UInt32
  currentInseqno : UInt32
  port : UInt16
  cwnd : UInt16
  inflight : UInt16
  generatorService : Option Addr
  transmissionTime : UInt8
  cometPassive : Bool
  cometSendAck : Bool
  cometStreaming : Bool
  request : Request
deriving DecidableEq, Repr

/-- `struct connection` with its `protocol.gpip` member. -/
structure GpIpConnection where
  ipAddr : UInt32
  outputHandler : HandlerRef
  payloadSize : UInt16
  protocol : UInt8
  wantToSend : UInt8
deriving DecidableEq, Repr

/-- The two members of `union protocol`. The output handler tells them apart: `IS_GPIP`. -/
inductive Protocol
  | http (c : HttpConnection)
  | gpip (c : GpIpConnection)
deriving DecidableEq, Repr

/-- A member of the ring of connections, with the block it lives in. -/
structure Connection where
  addr : Addr
  protocol : Protocol
deriving DecidableEq, Repr

/-- `ip_addr`. -/
def Connection.ipAddr (connection : Connection) : UInt32 :=
  match connection.protocol with
  | .http c => c.ipAddr
  | .gpip c => c.ipAddr

/-- A connection above IP as its handler sees it. -/
def GpIpConnection.info (c : GpIpConnection) (a : Addr) : ConnectionInfo :=
  {
    connection := a
    remoteIp := c.ipAddr
    payloadSize := c.payloadSize
    protocol := c.protocol
    sendCode := c.wantToSend
  }

/-- `struct http_rst_connection`. -/
structure RstConnection where
  ipAddr : UInt32
  currentInseqno : UInt32
  nextOutseqno : UInt32
  port : UInt16
deriving DecidableEq, Repr

--------------------------------------------------
-- Generator services
--------------------------------------------------

/-- `enum service_header_e`. -/
inductive ServiceHeader
  | none
  | standard
  | chunks
deriving DecidableEq, Repr

/-- `union if_infos_e`, with the contents of the context block. -/
inductive Infos
  | context (a : Addr) (context : Context)
  | buffer (a : Option Addr)
deriving DecidableEq, Repr

/-- `struct in_flight_infos_t`, with the block it lives in. -/
structure InFlight where
  addr : Addr
  nextOutseqno : UInt32
  infos : Infos
  serviceHeader : ServiceHeader
deriving DecidableEq, Repr

/-- `struct generator_service_t`, less its coroutine. -/
structure GeneratorService where
  currOutseqno : UInt32
  inFlightInfos : List InFlight
  serviceHeader : ServiceHeader
  isPersistent : Bool
deriving DecidableEq, Repr

/-- `struct curr_output_t`. -/
structure CurrOutput where
  service : Option Addr
  buffer : Option Addr
  contentLength : UInt16
  maxBytes : UInt16
  nextOutseqno : UInt32
  serviceHeader : ServiceHeader
deriving DecidableEq, Repr

--------------------------------------------------
-- The server
--------------------------------------------------

/-- What follows the IP header of an emitted packet. -/
inductive Body
  | tcp (port : UInt16) (seqno ackno : UInt32) (flags : UInt8) (options payload : List UInt8)
  | gpip (protocol : UInt8) (payload : List UInt8)
deriving DecidableEq, Repr

/-- An emitted packet. -/
structure Packet where
  destination : UInt32
  body : Body
deriving DecidableEq, Repr

/-- The global state. `connections` lists the ring from `all_connections` on; `sent` is the
history of emitted packets, each with the connection it belongs to, `outputDone` the same history
with what `get_current_remote_ip` returns when `DEV_OUTPUT_DONE` runs, and `packetCalls` the
history of the calls of handlers above IP.
-/
structure Server where
  heap : Heap
  service : Addr → GeneratorService
  connections : List Connection
  rstConnection : RstConnection
  currOutput : CurrOutput
  lastTransmissionTime : UInt8
  sent : List (Option Addr × Packet)
  outputDone : List (Option UInt32 × Packet)
  packetCalls : List PacketCall

/-- `something_to_send`, for an HTTP connection. -/
def HttpConnection.somethingToSend (p : Program) (c : HttpConnection) : Bool :=
  match c.outputHandler with
  | none => false
  | some h =>
      if p.isControl h || c.cometSendAck then true
      else c.tcpState = .established && c.nextOutseqno != c.finalOutseqno

/-- `able_to_send`. -/
def Connection.ableToSend (p : Program) (c : Connection) : Bool :=
  match c.protocol with
  | .gpip g => g.wantToSend != 0
  | .http c =>
      c.somethingToSend p && !c.cometPassive
        && c.inflight.toNat + c.tcpMss.toNat ≤ c.cwnd.toNat

namespace Server

def setService (s : Server) (a : Addr) (service : GeneratorService) : Server :=
  { s with service := Function.update s.service a service }

def setOutput (s : Server) (currOutput : CurrOutput) : Server := { s with currOutput }

/-- The connection at a position of the ring, if it is an HTTP connection. -/
def http (s : Server) (i : Nat) : Option HttpConnection :=
  match s.connections[i]? with
  | some ⟨_, .http c⟩ => some c
  | _ => none

/-- A store into the connection at a position of the ring. -/
def setHttp (s : Server) (i : Nat) (c : HttpConnection) : Server :=
  { s with connections := s.connections.modify i fun old => { old with protocol := .http c } }

/-- A store into the connection above IP at a position of the ring. -/
def setGpIp (s : Server) (i : Nat) (c : GpIpConnection) : Server :=
  { s with connections := s.connections.modify i fun old => { old with protocol := .gpip c } }

/-- A store into the last element of a list. -/
theorem modify_last {α : Type} (f : α → α) (before : List α) (x : α)
    : (before ++ [x]).modify before.length f = before ++ [f x] := by
  induction before with
  | nil => rfl
  | cons y before ih => simp [ih]

/-- `get_current_remote_ip`: the address of the last connection of the ring, `none` for `NULL`. -/
def getCurrentRemoteIp (s : Server) : Option UInt32 := s.connections.getLast?.map (·.ipAddr)

/-- `add_connection`: the new connection is inserted before `all_connections`. -/
def addConnection (p : Program) (s : Server) (protocol : Protocol) : Option Addr × Server :=
  match s.heap.memAlloc p.sizeofConnection with
  | (none, heap) => (none, { s with heap })
  | (some a, heap) =>
      (some a, { s with heap, connections := s.connections ++ [⟨a, protocol⟩] })

end Server

/-- The blocks that `clean_service` frees with one acknowledged segment. -/
def Heap.freeInFlight (p : Program) (h : Heap) (persistent : Bool) (r : InFlight) : Heap :=
  let h :=
    match r.infos, persistent with
    | .buffer a, true => h.memFree a p.outputBufferSize
    | .context a context, false =>
        (h.memFree context.stack context.stackSize).memFree (some a) p.sizeofContext
    | _, _ => h
  h.memFree (some r.addr) p.sizeofInFlightInfos

/-- `clean_service`: the list of in-flight segments is cut at the first one below `inack`, and
the segments from there on are freed.
-/
def Server.cleanService (p : Program) (s : Server) (a : Addr) (inack : Option UInt32) : Server :=
  let service := s.service a
  let kept :=
    match inack with
    | none => []
    | some ack => service.inFlightInfos.takeWhile fun r => ack ≤ r.nextOutseqno
  let freed := service.inFlightInfos.drop kept.length
  {
    s.setService a { service with inFlightInfos := kept } with
    heap := freed.foldl (fun h r => h.freeInFlight p service.isPersistent r) s.heap
  }

/-- The release of the arguments of a connection, of the size that its handler gives them. -/
def Heap.freeArgs (p : Program) (h : Heap) (c : HttpConnection) : Option Heap :=
  match c.outputHandler with
  | none => some h
  | some handler => h.memFreePointer c.request.args (p.handler handler).args.argsSize

/-- The release of the generator service of a connection. -/
def Server.freeService (p : Program) (s : Server) (c : HttpConnection) : Server :=
  match c.generatorService with
  | none => s
  | some a =>
      let s := s.cleanService p a none
      { s with heap := s.heap.memFree (some a) p.sizeofService }

/-- `free_connection` of the connection at a position of the ring, which may begin
elsewhere afterwards.
-/
def Server.freeConnection (p : Program) (s : Server) (i : Nat) : Option Server := do
  let connection ← s.connections[i]?
  let s := { s with connections := s.connections.drop (i + 1) ++ s.connections.take i }
  match connection.protocol with
  | .gpip _ => some { s with heap := s.heap.memFree (some connection.addr) p.sizeofConnection }
  | .http c => do
      let heap ← s.heap.freeArgs p c
      let s := Server.freeService p { s with heap } c
      some { s with heap := s.heap.memFree (some connection.addr) p.sizeofConnection }

/-- The release of the last connection of the ring, above IP. -/
theorem Server.freeConnection_gpIp {p : Program} {s : Server} {before : List Connection} {a : Addr}
    {c : GpIpConnection} (ring : s.connections = before ++ [⟨a, .gpip c⟩])
    : s.freeConnection p before.length
      = some { s with
        connections := before
        heap := s.heap.memFree (some a) p.sizeofConnection } := by
  simp [Server.freeConnection, ring]

end Smews.Core
