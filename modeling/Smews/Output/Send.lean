import Smews.Output.Packet

/-! `smews_send`: the choice of a connection, and the generation or the resending of a segment.
-/

namespace Smews.Output

open Smews.Core

--------------------------------------------------
-- The output coroutine
--------------------------------------------------

/-- A generator from a call of `out_c` or a return on, with the bytes already stored in
`curr_output.buffer`: where it stops, and all bytes stored. It is suspended by a call that
finds `content_length` equal to `max_bytes`. Outside the input coroutine `in` answers `-1`.
-/
def produce (maxBytes : UInt16) : Cont → List UInt8 → Option Frame × List UInt8
  | .ret _, stored => (none, stored)
  | .outC c k, stored =>
      if UInt16.ofNat stored.length = maxBytes then (some (.outStore c k), stored)
      else produce maxBytes k (stored ++ [c])
  | .inC k, stored => produce maxBytes (k none) stored

/-- The contents of an arguments block. -/
def argsView (h : Heap) : Pointer → ArgsView
  | .block a => some fun i => h.chars a i
  | _ => none

/-- What a coroutine that was never run does. -/
def startOutput (p : Program) (h : Heap) : CrFunc → Option Cont
  | .get handler args =>
      match (p.handler handler).data with
      | .generator ⟨.get doget, _⟩ => some (doget h.starts (argsView h args))
      | _ => none
  | .postOut handler contentType postData =>
      match (p.handler handler).data with
      | .generator ⟨.post _ dopostout, _⟩ => some (dopostout h.starts contentType postData)
      | _ => none
  | _ => none

/-- The member of `func` that `cr_run` calls: `dopostout` after the upload of data. -/
def isPostOut (s : Server) (c : HttpConnection) : Bool :=
  match c.request.postData with
  | none => false
  | some a => (s.heap.postData a).contentType != contentTypeUrlencoded

/-- Whether the function of a coroutine is `dopostout`. -/
def isDopostout : CrFunc → Bool
  | .postOut _ _ _ => true
  | _ => false

/-- `cr_run` of the output coroutine: how it stops, and the bytes it stored. -/
def runOutput (p : Program) (a : Addr) (postOut : Bool) (maxBytes : UInt16) (h : Heap)
    : Option ((Option Frame × List UInt8) × Heap) :=
  let coroutine := h.coroutine (.service a)
  match coroutine.currContext.status with
  | .ready =>
      if isDopostout coroutine.func = postOut then do
        let start ← startOutput p h coroutine.func
        some (produce maxBytes start [], { h with starts := h.starts + 1 })
      else none
  | .active =>
      match h.sharedStack with
      | .outStore c k => some (produce maxBytes k [c], h)
      | _ => none
  | .terminated => none

--------------------------------------------------
-- In-flight segments
--------------------------------------------------

/-- `if_select`. -/
def ifSelect (service : GeneratorService) (seqno : UInt32) : Option InFlight :=
  service.inFlightInfos.find? fun r => r.nextOutseqno = seqno

/-- `context_backup`: the context that the new record `addr` gets, with its stack. -/
def contextBackup (p : Program) (a addr : Addr) (seqno : UInt32) (header : ServiceHeader)
    (s : Server)
    : Bool × Server :=
  let context := (s.heap.coroutine (.service a)).currContext
  match s.heap.memAlloc p.sizeofContext with
  | (none, heap) => (false, { s with heap })
  | (some new, heap) =>
      let (stack, heap) := if context.sp = 0 then (none, heap) else heap.memAlloc context.sp
      if stack.isNone ∧ context.sp ≠ 0 then
        (false, { s with heap := heap.memFree (some new) p.sizeofContext })
      else
        let heap :=
          match stack with
          | none => heap
          | some b => { heap with savedStack := Function.update heap.savedStack b heap.sharedStack }
        let saved := { context with stack, stackSize := context.sp % 0x4000 }
        let service := s.service a
        let infos := {
          addr
          nextOutseqno := seqno
          infos := .context new saved
          serviceHeader := header
        }
        (true, { s with heap }.setService a
          { service with inFlightInfos := infos :: service.inFlightInfos })

/-- `context_restore`. -/
def contextRestore (a : Addr) (seqno : UInt32) (s : Server) : Option InFlight × Server :=
  match ifSelect (s.service a) seqno with
  | none => (none, s)
  | some r =>
      match r.infos with
      | .buffer _ => (some r, s)
      | .context _ context =>
          let heap := s.heap.setContext (.service a) context
          let heap :=
            match context.stack with
            | none => heap
            | some b => { heap with sharedStack := heap.savedStack b }
          (some r, { s with heap })

--------------------------------------------------
-- A generator segment
--------------------------------------------------

/-- `MIN (OUTPUT_BUFFER_SIZE, MAX_OUT_SIZE (mss) - _service_headers_size (header))`, computed in
`int` and stored in 16 bits.
-/
def maxBytes (p : Program) (mss : UInt16) (header : ServiceHeader) : UInt16 :=
  UInt16.ofInt (min (p.outputBufferSize.toNat : Int)
    ((p.maxOutSize mss : Int) - serviceHeadersSize header))

/-- The function of a new generator service. -/
def serviceFunc (s : Server) (c : HttpConnection) (h : HandlerRef) : CrFunc :=
  match c.request.postData with
  | some a =>
      if isPostOut s c then .postOut h (s.heap.postData a).contentType (s.heap.postData a).postData
      else .get h c.request.args
  | none => .get h c.request.args

/-- When a comet response begins, its connection is active and the other listeners passive. -/
def markPassive (i : Nat) (h : HandlerRef) (s : Server) : Server :=
  {
    s with
    connections := s.connections.zipIdx.map fun (connection, j) =>
      match connection.protocol with
      | .http c =>
          if c.outputHandler = some h then
            { connection with protocol := .http { c with cometPassive := j != i } }
          else connection
      | .gpip _ => connection
  }

/-- The initialization of the generator service `a` of a connection. -/
def initService (p : Program) (i : Nat) (c : HttpConnection) (h : HandlerRef)
    (resource : DynamicResource) (a : Addr) (s : Server)
    : Server :=
  let s := s.setOutput { s.currOutput with
    service := some a
    maxBytes := maxBytes p c.tcpMss .chunks
  }
  let heap := s.heap.crInit p (.service a)
  let coroutine := { heap.coroutine (.service a) with func := serviceFunc s c h }
  let heap := heap.setCoroutine (.service a) coroutine
  let streaming := (p.handler h).handlerStream
  let service := {
    currOutseqno := c.nextOutseqno
    inFlightInfos := []
    serviceHeader := if streaming && c.cometStreaming then .none else .standard
    isPersistent := resource.prop = .persistent
  }
  let s := { s with heap }.setService a service
  let c := {
    c with
    generatorService := some a
    finalOutseqno := c.nextOutseqno - 1
    cometStreaming := streaming || c.cometStreaming
  }
  let s := s.setHttp i c
  if (p.handler h).handlerComet then markPassive i h s else s

/-- The creation of the generator service of a connection; `none` inside when it cannot be
allocated.
-/
def createService (p : Program) (i : Nat) (c : HttpConnection) (h : HandlerRef)
    (resource : DynamicResource) (s : Server)
    : Option Addr × Server :=
  match s.heap.memAlloc p.sizeofService with
  | (none, heap) => (none, { s with heap })
  | (some a, heap) => (some a, initService p i c h resource a { s with heap })

/-- How a part of `smews_send` ends: by `return 1`, or with a result for the rest. -/
inductive Progress (α : Type)
  | stop (s : Server)
  | go (x : α) (s : Server)

/-- The allocation of what a first generation needs: the in-flight record, and the context to
come back to when the generator is not persistent. The buffer is freed on a failure.
-/
def prepareRecord (p : Program) (a : Addr) (seqno : UInt32) (buffer : Addr) (s : Server)
    : Progress Addr :=
  let persistent := (s.service a).isPersistent
  match s.heap.memAlloc p.sizeofInFlightInfos with
  | (none, heap) => .stop { s with heap := heap.memFree (some buffer) p.outputBufferSize }
  | (some addr, heap) =>
      let s := { s with heap }
      if persistent then
        .go addr s
      else
        match contextBackup p a addr seqno s.currOutput.serviceHeader s with
        | (true, s) => .go addr s
        | (false, s) =>
            let heap := s.heap.memFree (some buffer) p.outputBufferSize
            .stop { s with heap := heap.memFree (some addr) p.sizeofInFlightInfos }

/-- The POST data of a response is freed with its generator. -/
def cleanPostData (p : Program) (i : Nat) (c : HttpConnection) (s : Server) : Server :=
  match c.request.postData with
  | none => s
  | some post =>
      let s := { s with heap := s.heap.memFree (some post) p.sizeofPostData }
      s.setHttp i { c with request := { c.request with postData := none } }

/-- The run of the coroutine of a service into a new buffer: whether the generator has ended. -/
def runGenerator (p : Program) (i : Nat) (a : Addr) (c : HttpConnection) (buffer : Addr)
    (s : Server)
    : Option (Bool × Server) := do
  let ((frame, bytes), heap) ← runOutput p a (isPostOut s c) s.currOutput.maxBytes s.heap
  let heap := heap.storeBytes buffer bytes
  let s := { s with heap }.setOutput { s.currOutput with
    buffer := some buffer
    contentLength := UInt16.ofNat bytes.length
  }
  match frame with
  | some frame => some (false, { s with heap := s.heap.crSuspend p (.service a) frame })
  | none => some (true, cleanPostData p i c { s with heap := s.heap.crTerminate (.service a) })

/-- The header form of a segment. When it is generated again its context is restored first;
the last, void chunk has none.
-/
def setupHeader (a : Addr) (seqno : UInt32) (retransmitting : Bool) (s : Server)
    : ServiceHeader × Server :=
  if retransmitting then
    match contextRestore a seqno s with
    | (some r, s) => (r.serviceHeader, s)
    | (none, s) => (.none, s)
  else ((s.service a).serviceHeader, s)

/-- The initializations before a segment is generated. -/
def setupSegment (a : Addr) (seqno : UInt32) (retransmitting : Bool) (s : Server) : Server :=
  let (header, s) := setupHeader a seqno retransmitting s
  s.setOutput { s.currOutput with
    serviceHeader := header
    contentLength := 0
    buffer := none
  }

/-- The record of a segment whose buffer is kept. -/
def recordBuffer (a addr : Addr) (seqno : UInt32) (buffer : Addr) (s : Server) : Server :=
  let service := s.service a
  let infos := {
    addr
    nextOutseqno := seqno
    infos := .buffer (some buffer)
    serviceHeader := s.currOutput.serviceHeader
  }
  if service.isPersistent then
    s.setService a { service with inFlightInfos := infos :: service.inFlightInfos }
  else s

/-- The first generation of a segment, with a new record. -/
def generateNew (p : Program) (i : Nat) (a : Addr) (c : HttpConnection) (s : Server)
    : Option (Progress Bool) :=
  match s.heap.memAlloc p.outputBufferSize with
  | (none, heap) => some (.stop { s with heap })
  | (some buffer, heap) =>
      match prepareRecord p a c.nextOutseqno buffer { s with heap } with
      | .stop s => some (.stop s)
      | .go addr s =>
          (runGenerator p i a c buffer s).map fun (ended, s) =>
            .go ended (recordBuffer a addr c.nextOutseqno buffer s)

/-- A segment generated again, from the context of its record. -/
def regenerate (p : Program) (i : Nat) (a : Addr) (c : HttpConnection) (s : Server)
    : Option (Progress Bool) :=
  match s.heap.memAlloc p.outputBufferSize with
  | (none, heap) => some (.stop { s with heap })
  | (some buffer, heap) =>
      (runGenerator p i a c buffer { s with heap }).map fun (ended, s) => .go ended s

/-- The generation of a segment, for the first time or again: whether the generator has ended.
No coroutine runs for the void chunk after its end.
-/
def generate (p : Program) (i : Nat) (a : Addr) (c : HttpConnection) (retransmitting : Bool)
    (s : Server)
    : Option (Progress Bool) :=
  let s := setupSegment a c.nextOutseqno retransmitting s
  if (s.heap.coroutine (.service a)).currContext.status = .terminated then some (.go true s)
  else if retransmitting then regenerate p i a c s
  else generateNew p i a c s

/-- A segment of a persistent generator resent from its buffer. The length of the contents is
the one that `curr_output` happens to hold.
-/
def resend (a : Addr) (c : HttpConnection) (s : Server) : Option Server := do
  let r ← ifSelect (s.service a) c.nextOutseqno
  match r.infos with
  | .context _ _ => none
  | .buffer buffer =>
      some (s.setOutput { s.currOutput with buffer, serviceHeader := r.serviceHeader })

/-- The next segment of a service, resent from its buffer or generated: whether the generator
has ended.
-/
def nextSegment (p : Program) (i : Nat) (a : Addr) (c : HttpConnection) (retransmitting : Bool)
    (s : Server)
    : Option (Progress Bool) :=
  if (s.service a).isPersistent && retransmitting then (resend a c s).map (Progress.go false)
  else generate p i a c retransmitting s

/-- The HTTP header of a segment. -/
def selectHeader (stream ended : Bool) : ServiceHeader → ServiceHeader
  | .standard => if !ended || stream then .chunks else .standard
  | .chunks => .none
  | .none => .none

/-- The end of a streamed response on one of the connections. -/
def endStream (i : Nat) (ended : Bool) (s : Server) : Option Server :=
  if ended then
    (s.http i).map fun c => s.setHttp i { c with finalOutseqno := c.nextOutseqno }
  else some s

/-- A segment of a comet response on one of the connections of the ring. -/
def multicastTo (p : Program) (h : HandlerRef) (ended : Bool) (i : Nat) (s : Server)
    : Option Server := do
  let connection ← s.connections[i]?
  match connection.protocol with
  | .gpip _ => some s
  | .http c =>
      if c.outputHandler = some h ∧ connection.ableToSend p then
        if (p.handler h).handlerStream then
          (if 0 < s.currOutput.contentLength then sendPacket p i s else some s).bind
            (endStream i ended)
        else
          sendPacket p i s
      else
        some s

/-- The emission of the current segment. -/
def emit (p : Program) (i : Nat) (h : HandlerRef) (ended : Bool) (s : Server) : Option Server :=
  if (p.handler h).handlerComet then
    (List.range s.connections.length).foldlM (fun s j => multicastTo p h ended j s) s
  else
    sendPacket p i s

/-- What follows the emission: the buffer is freed unless it is kept, the service moves on, and
a stream that has ended gives its service back.
-/
def concludeSegment (p : Program) (i : Nat) (a : Addr) (h : HandlerRef) (retransmitting ended : Bool)
    (s : Server)
    : Option Server := do
  let service := s.service a
  let s :=
    if service.isPersistent then s
    else { s with heap := s.heap.memFree s.currOutput.buffer p.outputBufferSize }
  let c ← s.http i
  let s :=
    if retransmitting then s
    else s.setService a { service with
      serviceHeader := s.currOutput.serviceHeader
      currOutseqno := c.nextOutseqno
    }
  if (p.handler h).handlerStream ∧ ended ∧ c.inflight = 0 then
    let s := s.cleanService p a none
    let s := { s with heap := s.heap.memFree (some a) p.sizeofService }
    some (s.setHttp i { c with generatorService := none })
  else
    some s

/-- `smews_send` for a generator, once its service is there. -/
def sendService (p : Program) (i : Nat) (a : Addr) (h : HandlerRef) (s : Server)
    : Option Server := do
  let c ← s.http i
  let s := s.setOutput { s.currOutput with service := some a, nextOutseqno := c.nextOutseqno }
  let retransmitting := c.nextOutseqno != (s.service a).currOutseqno
  match s.heap.crPrepare (.service a) with
  | (false, heap) => some { s with heap }
  | (true, heap) => do
      let s := { s with heap }
      let progress ← nextSegment p i a c retransmitting s
      match progress with
      | .stop s => some s
      | .go ended s =>
          let s := s.setOutput { s.currOutput with
            serviceHeader := selectHeader (p.handler h).handlerStream ended s.currOutput.serviceHeader
          }
          let s ← emit p i h ended s
          concludeSegment p i a h retransmitting ended s

/-- `smews_send` for a generator. -/
def sendGenerator (p : Program) (i : Nat) (h : HandlerRef) (resource : DynamicResource)
    (s : Server)
    : Option Server := do
  let c ← s.http i
  let s := s.setOutput { s.currOutput with maxBytes := maxBytes p c.tcpMss .none }
  match c.generatorService with
  | some a => sendService p i a h s
  | none =>
      match createService p i c h resource s with
      | (none, s) => some s
      | (some a, s) => sendService p i a h s

--------------------------------------------------
-- The connection to serve
--------------------------------------------------

/-- `smews_send` for a control packet. It may stand in for a handler that is not ready or waits
for a comet event, and that is put back afterwards.
-/
def sendControl (p : Program) (i : Nat) (old : Option HandlerRef) (s : Server)
    : Option Server := do
  let s ← sendPacket p i s
  let c ← s.http i
  let c := { c with outputHandler := none }
  if c.tcpState = .closing then
    (s.setHttp i c).freeConnection p i
  else
    match old with
    | none => some (s.setHttp i c)
    | some h =>
        if c.request.readyToSend then
          some (s.setHttp i { c with
            outputHandler := some h
            cometSendAck := false
            finalOutseqno := c.nextOutseqno
          })
        else
          some (s.setHttp i { c with outputHandler := some h })

/-- `smews_send` for the HTTP connection that was chosen. -/
def sendHttp (p : Program) (i : Nat) (s : Server) : Option Server := do
  let c ← s.http i
  if ¬ c.request.readyToSend ∨ c.cometSendAck then
    sendControl p i c.outputHandler (s.setHttp i { c with outputHandler := some .ack })
  else do
    let h ← c.outputHandler
    match (p.handler h).data with
    | .control _ _ => sendControl p i none s
    | .file _ => sendPacket p i s
    | .generator resource => sendGenerator p i h resource s
    | .generalIp _ => none

/-- `curr_output.max_bytes` for a packet above IP. -/
def gpIpMaxBytes (p : Program) : UInt16 :=
  match p.devMtu with
  | none => p.outputBufferSize
  | some mtu => if mtu.toNat < p.outputBufferSize.toNat + 20 then mtu - 20 else p.outputBufferSize

/-- `smews_send` for a connection above IP: the output buffer is a static one, `out_c` stores
as many bytes as fit, and the connection is freed.
-/
def sendGpIp (p : Program) (i : Nat) (c : GpIpConnection) (s : Server) : Option Server := do
  match (p.handler c.outputHandler).data with
  | .generalIp g =>
      let connection ← s.connections[i]?
      let info := c.info connection.addr
      let content := (g.dopacketout s.heap.starts s.packetCalls info).take (gpIpMaxBytes p).toNat
      let s := s.setOutput { s.currOutput with
        maxBytes := gpIpMaxBytes p
        contentLength := UInt16.ofNat content.length
        service := none
      }
      let packet : Packet := { destination := c.ipAddr, body := .gpip c.protocol content }
      let s : Server := { s with
        sent := s.sent ++ [(some connection.addr, packet)]
        outputDone := s.outputDone ++ [(s.getCurrentRemoteIp, packet)]
        packetCalls := s.packetCalls ++ [.packetOut c.outputHandler info]
      }
      s.freeConnection p i
  | _ => none

/-- The ring after the connection at a position was chosen: the next one comes first. -/
def rotate (i : Nat) (s : Server) : Server :=
  { s with connections := s.connections.drop (i + 1) ++ s.connections.take (i + 1) }

/-- `smews_send`. The connection that is served is the last of the ring. -/
def smewsSend (p : Program) (s : Server) : Option Server :=
  if s.rstConnection.port ≠ 0 then
    some (sendRst s)
  else
    match s.connections.findIdx? (·.ableToSend p) with
    | none => some s
    | some i => do
        let s := rotate i s
        let last := s.connections.length - 1
        let connection ← s.connections[last]?
        match connection.protocol with
        | .gpip c => sendGpIp p last c s
        | .http _ => sendHttp p last s

end Smews.Output
