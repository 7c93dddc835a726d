import Smews.Output.Served

/-! The emission of a comet segment: what each connection of the ring gets of it.
-/

namespace Smews.Output

open Smews.Core

variable {p : Program}

--------------------------------------------------
-- Before the emission
--------------------------------------------------

/-- `smews_send` for a generator with a service, up to the emission of the segment. -/
def prepareSegment (p : Program) (i : Nat) (a : Addr) (c : HttpConnection) (h : HandlerRef)
    (s : Server)
    : Option (Progress Bool) :=
  let s := s.setOutput { s.currOutput with service := some a, nextOutseqno := c.nextOutseqno }
  match s.heap.crPrepare (.service a) with
  | (false, heap) => some (.stop { s with heap })
  | (true, heap) =>
      let retransmitting := c.nextOutseqno != (s.service a).currOutseqno
      (nextSegment p i a c retransmitting { s with heap }).map fun
        | .stop s => .stop s
        | .go ended s => .go ended (s.setOutput { s.currOutput with
            serviceHeader := selectHeader (p.handler h).handlerStream ended s.currOutput.serviceHeader
          })

theorem sendService_eq {i : Nat} {a : Addr} {c : HttpConnection} {h : HandlerRef} {s : Server}
    (here : s.http i = some c)
    : sendService p i a h s = (prepareSegment p i a c h s).bind fun
        | .stop s => some s
        | .go ended t => (emit p i h ended t).bind
            (concludeSegment p i a h (c.nextOutseqno != (s.service a).currOutseqno) ended) := by
  obtain ⟨ok, heap, prepared⟩ : ∃ ok heap, s.heap.crPrepare (.service a) = (ok, heap) := ⟨_, _, rfl⟩
  unfold sendService prepareSegment
  simp only [here, Option.bind_eq_bind, Option.bind_some, Server.setOutput, prepared]
  cases ok with
  | false => rfl
  | true =>
      dsimp only
      rw [Option.bind_map]
      congr 1
      funext progress
      cases progress <;> rfl

/-- The service of the generator that `smews_send` serves, which may be a new one. -/
def openService (p : Program) (i : Nat) (c : HttpConnection) (h : HandlerRef)
    (resource : DynamicResource) (s : Server)
    : Option Addr × Server :=
  let s := s.setOutput { s.currOutput with maxBytes := maxBytes p c.tcpMss .none }
  match c.generatorService with
  | some a => (some a, s)
  | none => createService p i c h resource s

theorem sendGenerator_eq {i : Nat} {c : HttpConnection} {h : HandlerRef}
    {resource : DynamicResource} {s : Server} (here : s.http i = some c)
    : sendGenerator p i h resource s = match openService p i c h resource s with
        | (none, s) => some s
        | (some a, s) => sendService p i a h s := by
  unfold sendGenerator openService
  simp only [here, Option.bind_eq_bind, Option.bind_some]
  cases c.generatorService <;> rfl

/-- The segment that a call of `smews_send` is about to emit for a generator: the connection that
is served, whether the generator has ended, and the state up to here.
-/
structure Emission where
  addr : Addr
  connection : HttpConnection
  handler : HandlerRef
  ended : Bool
  server : Server

/-- The segment that a call of `smews_send` emits for a generator, if it does. -/
def emission (p : Program) (s : Server) : Option Emission :=
  if s.rstConnection.port ≠ 0 then none
  else do
    let i ← s.connections.findIdx? (·.ableToSend p)
    let s := rotate i s
    let last := s.connections.length - 1
    let ⟨addr, protocol⟩ ← s.connections[last]?
    match protocol with
    | .gpip _ => none
    | .http connection =>
        if ¬ connection.request.readyToSend ∨ connection.cometSendAck then none
        else do
          let handler ← connection.outputHandler
          match (p.handler handler).data with
          | .generator resource =>
              match openService p last connection handler resource s with
              | (none, _) => none
              | (some a, s) => do
                  let c ← s.http last
                  match ← prepareSegment p last a c handler s with
                  | .stop _ => none
                  | .go ended server => some { addr, connection, handler, ended, server }
          | _ => none

/-- Nothing was sent, and the POST data of the connection at a position may be gone. -/
def RequestChanged (i : Nat) (c : HttpConnection) (s s' : Server) : Prop :=
  ∃ request : Request, request.readyToSend = c.request.readyToSend
    ∧ s'.connections = (s.setHttp i { c with request }).connections ∧ s'.sent = s.sent

/-- Storing a connection back changes nothing. -/
theorem setHttp_self {i : Nat} {c : HttpConnection} {s : Server} (here : s.http i = some c)
    : (s.setHttp i c).connections = s.connections := by
  obtain ⟨addr, at_i⟩ := http_eq here
  apply List.ext_getElem?
  intro j
  simp only [Server.setHttp, List.getElem?_modify]
  by_cases hj : i = j
  · subst hj
    simp [at_i]
  · simp [hj]

theorem RequestChanged.of_eq {i : Nat} {c : HttpConnection} {s s' : Server}
    (here : s.http i = some c) (same : s'.connections = s.connections) (sent : s'.sent = s.sent)
    : RequestChanged i c s s' :=
  ⟨c.request, rfl, same.trans (setHttp_self here).symm, sent⟩

theorem RequestChanged.after {i : Nat} {c : HttpConnection} {s t s' : Server}
    (changed : RequestChanged i c t s') (same : t.connections = s.connections)
    (sent : t.sent = s.sent)
    : RequestChanged i c s s' := by
  obtain ⟨request, ready, ring, kept⟩ := changed
  exact ⟨request, ready, by rw [ring]; simp only [Server.setHttp, same], kept.trans sent⟩

theorem runGenerator_ring {i : Nat} {a : Addr} {c : HttpConnection} {buffer : Addr}
    {s s' : Server} {ended : Bool} (run : runGenerator p i a c buffer s = some (ended, s'))
    (here : s.http i = some c)
    : RequestChanged i c s s' := by
  unfold runGenerator at run
  rw [Option.bind_eq_bind, Option.bind_eq_some_iff] at run
  obtain ⟨⟨⟨frame, bytes⟩, heap⟩, -, rest⟩ := run
  dsimp only at rest
  split at rest <;> simp only [Option.some.injEq, Prod.mk.injEq] at rest <;>
    obtain ⟨-, rfl⟩ := rest
  · exact .of_eq here rfl rfl
  · unfold cleanPostData
    split
    · exact .of_eq here rfl rfl
    · exact ⟨{ c.request with postData := none }, rfl, rfl, rfl⟩

/-- The generation of a segment changes the ring in the POST data of its connection only. -/
theorem generate_ring {i : Nat} {a : Addr} {c : HttpConnection} {retransmitting : Bool}
    {s : Server} {progress : Progress Bool} (step : generate p i a c retransmitting s = some progress)
    (here : s.http i = some c)
    : RequestChanged i c s progress.state := by
  have set := (setupSegment_spec s a c.nextOutseqno retransmitting).connections
  have sent := (setupSegment_spec s a c.nextOutseqno retransmitting).sent
  have here' := (http_of_connections set i).trans here
  unfold generate at step
  dsimp only at step
  generalize setupSegment a c.nextOutseqno retransmitting s = t at step set sent here'
  refine RequestChanged.after ?_ set sent
  split_ifs at step
  · simp only [Option.some.injEq] at step
    subst step
    exact .of_eq here' rfl rfl
  · unfold regenerate at step
    split at step
    · simp only [Option.some.injEq] at step
      subst step
      exact .of_eq here' rfl rfl
    · rename_i buffer heap _
      rw [Option.map_eq_some_iff] at step
      obtain ⟨⟨ended, t'⟩, run, rfl⟩ := step
      exact (runGenerator_ring (s := { t with heap }) run here').after rfl rfl
  · unfold generateNew at step
    split at step
    · simp only [Option.some.injEq] at step
      subst step
      exact .of_eq here' rfl rfl
    · rename_i buffer heap _
      have calm := prepareRecord_state (p := p) a c.nextOutseqno buffer { t with heap }
      split at step
      · rename_i t' prepared
        simp only [Option.some.injEq] at step
        subst step
        rw [prepared] at calm
        exact .of_eq here' calm.connections calm.sent
      · rename_i addr t' prepared
        rw [prepared] at calm
        rw [Option.map_eq_some_iff] at step
        obtain ⟨⟨ended, u⟩, run, rfl⟩ := step
        obtain ⟨request, ready, ring, sent⟩ := runGenerator_ring run ((calm.http i).trans here')
        have recorded := recordBuffer_calm a addr c.nextOutseqno buffer u
        exact RequestChanged.after ⟨request, ready, recorded.connections.trans ring,
          recorded.sent.trans sent⟩ calm.connections calm.sent

theorem resend_ring {a : Addr} {c : HttpConnection} {s s' : Server}
    (again : resend a c s = some s')
    : s'.connections = s.connections ∧ s'.sent = s.sent := by
  unfold resend at again
  rw [Option.bind_eq_bind, Option.bind_eq_some_iff] at again
  obtain ⟨r, -, stored⟩ := again
  split at stored
  · cases stored
  · simp only [Option.some.injEq] at stored
    subst stored
    exact ⟨rfl, rfl⟩

theorem prepareSegment_ring {i : Nat} {a : Addr} {c : HttpConnection} {h : HandlerRef}
    {s : Server} {progress : Progress Bool} (step : prepareSegment p i a c h s = some progress)
    (here : s.http i = some c)
    : RequestChanged i c s progress.state := by
  unfold prepareSegment at step
  dsimp only at step
  split at step
  · simp only [Option.some.injEq] at step
    subst step
    exact .of_eq here rfl rfl
  · rename_i heap _
    rw [Option.map_eq_some_iff] at step
    obtain ⟨generated, segment, rfl⟩ := step
    have ring : RequestChanged i c s generated.state := by
      unfold nextSegment at segment
      split at segment
      · rw [Option.map_eq_some_iff] at segment
        obtain ⟨v, again, rfl⟩ := segment
        obtain ⟨ring, sent⟩ := resend_ring again
        exact .of_eq here ring sent
      · exact (generate_ring segment here).after rfl rfl
    obtain ⟨request, ready, eq, sent⟩ := ring
    cases generated <;> exact ⟨request, ready, eq, sent⟩

theorem prepareSegment_served {i : Nat} {b : Addr} {c : HttpConnection} {h : HandlerRef}
    {s : Server} {progress : Progress Bool} (step : prepareSegment p i b c h s = some progress)
    (here : s.http i = some c) (handler : c.outputHandler = some h)
    : RingServed p h s progress.state := by
  unfold prepareSegment at step
  dsimp only at step
  split at step
  · cases step
    exact .of_eq rfl rfl rfl rfl
  · rw [Option.map_eq_some_iff] at step
    obtain ⟨next, generated, rfl⟩ := step
    have served := (nextSegment_served generated here handler).from (s := s) rfl rfl rfl rfl
    cases next with
    | stop t => exact served
    | go ended t => exact served.trans (.of_eq rfl rfl rfl rfl)

/-- The connection for which a service is initialized. -/
theorem initService_http {i : Nat} {a : Addr} {c : HttpConnection} {h : HandlerRef}
    (resource : DynamicResource) {s : Server} (here : s.http i = some c)
    (handler : c.outputHandler = some h)
    : (initService p i c h resource a s).http i = some { c with
        generatorService := some a
        finalOutseqno := c.nextOutseqno - 1
        cometStreaming := (p.handler h).handlerStream || c.cometStreaming
        cometPassive := if (p.handler h).handlerComet then false else c.cometPassive } := by
  have here' : (s.setHttp i { c with
      generatorService := some a
      finalOutseqno := c.nextOutseqno - 1
      cometStreaming := (p.handler h).handlerStream || c.cometStreaming }).http i = some _ :=
    setHttp_http here
  unfold initService
  dsimp only
  by_cases comet : (p.handler h).handlerComet
  · simp only [if_pos comet]
    have active := markPassive_http (h := h) here'
    rw [if_pos handler] at active
    exact (http_of_connections rfl i).trans active
  · simp only [if_neg comet]
    exact (http_of_connections rfl i).trans here'

/-- Opening a service sends nothing. -/
theorem openService_served {i : Nat} {b : Option Addr} {c : HttpConnection} {h : HandlerRef}
    {resource : DynamicResource} {s t : Server}
    (opened : openService p i c h resource s = (b, t)) (here : s.http i = some c)
    (handler : c.outputHandler = some h)
    : RingServed p h s t ∧ t.sent = s.sent := by
  unfold openService at opened
  dsimp only at opened
  cases service : c.generatorService with
  | some a =>
      simp only [service, Prod.mk.injEq] at opened
      obtain ⟨-, rfl⟩ := opened
      exact ⟨.of_eq rfl rfl rfl rfl, rfl⟩
  | none =>
      simp only [service] at opened
      have served := createService_served (p := p) resource
        (s := s.setOutput { s.currOutput with maxBytes := maxBytes p c.tcpMss .none }) here handler
      rw [opened] at served
      refine ⟨served.from rfl rfl rfl rfl, ?_⟩
      unfold createService at opened
      split at opened <;> simp only [Prod.mk.injEq] at opened <;> obtain ⟨-, rfl⟩ := opened
      · rfl
      · unfold initService
        dsimp only
        split <;> rfl

/-- What `smews_send` finds of a connection once the service of its comet handler is open: it is
active, and has something to send.
-/
theorem openService_comet {i : Nat} {a : Addr} {c : HttpConnection} {h : HandlerRef}
    {resource : DynamicResource} {s t : Server}
    (opened : openService p i c h resource s = (some a, t)) (here : s.http i = some c)
    (handler : c.outputHandler = some h) (comet : (p.handler h).handlerComet)
    (active : c.cometPassive = false) (something : c.nextOutseqno ≠ c.finalOutseqno)
    : RingServed p h s t ∧ t.sent = s.sent
      ∧ ∃ service final streaming, final ≠ c.nextOutseqno ∧ t.http i = some { c with
          generatorService := service
          finalOutseqno := final
          cometStreaming := streaming } := by
  obtain ⟨served, sent⟩ := openService_served opened here handler
  refine ⟨served, sent, ?_⟩
  unfold openService at opened
  dsimp only at opened
  cases service : c.generatorService with
  | some b =>
      simp only [service, Prod.mk.injEq, Option.some.injEq] at opened
      obtain ⟨rfl, rfl⟩ := opened
      exact ⟨c.generatorService, c.finalOutseqno, c.cometStreaming, something.symm, here⟩
  | none =>
      simp only [service, createService] at opened
      split at opened
      · cases opened
      · rename_i b heap _
        simp only [Prod.mk.injEq, Option.some.injEq] at opened
        obtain ⟨rfl, rfl⟩ := opened
        have http := initService_http (p := p) (a := b) resource
          (s := { s.setOutput { s.currOutput with maxBytes := maxBytes p c.tcpMss .none } with heap })
          here handler
        rw [if_pos comet, ← active] at http
        exact ⟨some b, c.nextOutseqno - 1, _, by grind, http⟩

--------------------------------------------------
-- One connection
--------------------------------------------------

/-- Whether a connection listens for a handler and may send. -/
def listensNow (p : Program) (h : HandlerRef) (k : Connection) : Bool :=
  match k.protocol with
  | .http c => c.outputHandler = some h && k.ableToSend p
  | .gpip _ => false

/-- Whether the current segment of a handler is emitted: an empty one of a stream is not. -/
def hasSegment (p : Program) (s : Server) (h : HandlerRef) : Bool :=
  !(p.handler h).handlerStream || 0 < s.currOutput.contentLength

/-- The current segment. -/
def currPayload (s : Server) : List UInt8 :=
  generatorPayload s.currOutput.serviceHeader (currContent s)

/-- The packets that a listener is sent. -/
def multicastPackets (p : Program) (s : Server) (h : HandlerRef) (k : Connection)
    : List (Option Addr × Packet) :=
  match k.protocol with
  | .http c =>
      if listensNow p h k && hasSegment p s h then
        [(some k.addr, packetFor p c h (currPayload s))]
      else []
  | .gpip _ => []

/-- A connection after the current segment was emitted on it. -/
def emitted (p : Program) (s : Server) (h : HandlerRef) (c : HttpConnection) : HttpConnection :=
  { advance p s c h (currPayload s).length with transmissionTime := s.lastTransmissionTime }

/-- A listener after the current segment was sent to it, or the end of its stream was noted. -/
def afterMulticast (p : Program) (s : Server) (h : HandlerRef) (ended : Bool) (k : Connection)
    : Connection :=
  match k.protocol with
  | .http c =>
      if listensNow p h k then
        let c := if hasSegment p s h then emitted p s h c else c
        let c :=
          if (p.handler h).handlerStream && ended then { c with finalOutseqno := c.nextOutseqno }
          else c
        { k with protocol := .http c }
      else k
  | .gpip _ => k

/-- The emission of a segment depends on the output buffer and the clock only. -/
structure SameSegment (s s' : Server) : Prop where
  heap : s'.heap = s.heap
  service : s'.service = s.service
  currOutput : s'.currOutput = s.currOutput
  time : s'.lastTransmissionTime = s.lastTransmissionTime

theorem SameSegment.refl (s : Server) : SameSegment s s := ⟨rfl, rfl, rfl, rfl⟩

theorem SameSegment.trans {s s' s'' : Server} (h : SameSegment s s') (h' : SameSegment s' s'')
    : SameSegment s s'' :=
  ⟨
    h'.heap.trans h.heap, h'.service.trans h.service, h'.currOutput.trans h.currOutput,
    h'.time.trans h.time
  ⟩

theorem SameSegment.currPayload {s s' : Server} (same : SameSegment s s')
    : currPayload s' = currPayload s := by
  simp only [Output.currPayload, currContent, same.currOutput, same.heap]

theorem SameSegment.hasSegment {s s' : Server} (same : SameSegment s s') (h : HandlerRef)
    : hasSegment p s' h = hasSegment p s h := by
  rw [Output.hasSegment, Output.hasSegment, same.currOutput]

theorem SameSegment.packets {s s' : Server} (same : SameSegment s s') (h : HandlerRef)
    (k : Connection)
    : multicastPackets p s' h k = multicastPackets p s h k := by
  obtain ⟨a, protocol⟩ := k
  cases protocol with
  | gpip g => rfl
  | http c => simp only [multicastPackets, same.hasSegment, same.currPayload]

theorem SameSegment.after {s s' : Server} (same : SameSegment s s') (h : HandlerRef) (ended : Bool)
    (k : Connection)
    : afterMulticast p s' h ended k = afterMulticast p s h ended k := by
  obtain ⟨a, protocol⟩ := k
  cases protocol with
  | gpip g => rfl
  | http c =>
      simp only [afterMulticast, same.hasSegment, emitted, advance, same.currOutput,
        same.currPayload, same.time]

/-- The packet of a generator. -/
theorem sendPacket_generator {i : Nat} {s s' : Server} {a : Addr} {c : HttpConnection}
    {h : HandlerRef} {resource : DynamicResource} (send : sendPacket p i s = some s')
    (generator : (p.handler h).data = .generator resource)
    (at_i : s.connections[i]? = some ⟨a, .http c⟩) (handler : c.outputHandler = some h)
    : s' = { s.setHttp i (emitted p s h c) with
        sent := s.sent ++ [(some a, packetFor p c h (currPayload s))]
        outputDone := s.outputDone ++ [(s.getCurrentRemoteIp, packetFor p c h (currPayload s))] } := by
  obtain ⟨a', c', h', payload, at_i', handler', content, rfl⟩ := sendPacket_spec send
  rw [at_i] at at_i'
  cases at_i'
  rw [handler] at handler'
  cases handler'
  have same : payload = currPayload s := by
    simp only [segmentPayload, generator] at content
    split at content
    · cases content
    · exact (Option.some.inj content).symm
  rw [same]
  rfl

/-- A segment for one position of the ring. -/
theorem multicastTo_spec {j : Nat} {h : HandlerRef} {resource : DynamicResource} {ended : Bool}
    {s s' : Server} {k : Connection} (send : multicastTo p h ended j s = some s')
    (generator : (p.handler h).data = .generator resource) (at_j : s.connections[j]? = some k)
    : SameSegment s s' ∧ s'.connections = s.connections.set j (afterMulticast p s h ended k)
      ∧ s'.sent = s.sent ++ multicastPackets p s h k := by
  obtain ⟨lt, eq⟩ := List.getElem?_eq_some_iff.mp at_j
  have unchanged : s.connections.set j k = s.connections := by
    rw [← eq]
    exact List.set_getElem_self lt
  have stored {a : Addr} {c : HttpConnection} (isHttp : k = ⟨a, .http c⟩) (c' : HttpConnection)
      : (s.setHttp j c').connections = s.connections.set j ⟨a, .http c'⟩ := by
    simp only [Server.setHttp]
    rw [List.modify_eq_set_getElem?, at_j, isHttp]
    rfl
  unfold multicastTo at send
  simp only [at_j, Option.bind_eq_bind, Option.bind_some] at send
  obtain ⟨a, protocol⟩ := k
  cases protocol with
  | gpip g =>
      simp only [Option.some.injEq] at send
      subst send
      exact ⟨.refl s, unchanged.symm, (List.append_nil _).symm⟩
  | http c =>
      dsimp only at send
      split at send <;> rename_i able
      · have listens : listensNow p h ⟨a, .http c⟩ = true := by simp [listensNow, able.1, able.2]
        have here : s.http j = some c := by simp [Server.http, at_j]
        split at send <;> rename_i stream
        · rw [Option.bind_eq_some_iff] at send
          obtain ⟨t, first, last⟩ := send
          have segment : hasSegment p s h = decide (0 < s.currOutput.contentLength) := by
            simp [hasSegment, stream]
          obtain ⟨c', result⟩ : ∃ c', c' = (if hasSegment p s h then emitted p s h c else c) :=
            ⟨_, rfl⟩
          have sent : SameSegment s t ∧ t.connections = s.connections.set j ⟨a, .http c'⟩
              ∧ t.sent = s.sent ++ multicastPackets p s h ⟨a, .http c⟩ := by
            simp only [multicastPackets, listens, Bool.true_and]
            rw [result]
            split at first <;> rename_i positive
            · have eq := sendPacket_generator first generator at_j able.1
              subst eq
              simp only [segment, positive, decide_true, if_true]
              exact ⟨⟨rfl, rfl, rfl, rfl⟩, stored rfl _, trivial⟩
            · simp only [Option.some.injEq] at first
              subst first
              simp only [segment, positive, decide_false, Bool.false_eq_true, if_false,
                List.append_nil]
              exact ⟨.refl s, unchanged.symm, trivial⟩
          obtain ⟨same, ring, packets⟩ := sent
          have here' : t.http j = some c' := by simp [Server.http, ring, lt]
          have after : afterMulticast p s h ended ⟨a, .http c⟩ = ⟨a, .http (
              if ended then { c' with finalOutseqno := c'.nextOutseqno } else c')⟩ := by
            simp [afterMulticast, listens, stream, result]
          rw [after]
          unfold endStream at last
          split at last <;> rename_i isEnded
          · simp only [here', Option.map_some, Option.some.injEq] at last
            subst last
            refine ⟨same.trans ⟨rfl, rfl, rfl, rfl⟩, ?_, packets⟩
            simp only [Server.setHttp, isEnded, if_true]
            rw [List.modify_eq_set_getElem?, ring]
            simp [lt]
          · simp only [Option.some.injEq] at last
            subst last
            rw [if_neg isEnded]
            exact ⟨same, ring, packets⟩
        · have segment : hasSegment p s h = true := by simp [hasSegment, stream]
          have result := sendPacket_generator send generator at_j able.1
          subst result
          refine ⟨⟨rfl, rfl, rfl, rfl⟩, ?_, ?_⟩
          · rw [afterMulticast]
            simp only [listens, segment, stream, if_true, Bool.false_and, Bool.false_eq_true,
              if_false]
            exact stored rfl _
          · simp [multicastPackets, listens, segment]
      · simp only [Option.some.injEq] at send
        subst send
        have deaf : listensNow p h ⟨a, .http c⟩ = false := by
          simpa [listensNow] using able
        refine ⟨.refl s, ?_, ?_⟩
        · rw [afterMulticast]
          simp only [deaf, Bool.false_eq_true, if_false]
          exact unchanged.symm
        · simp [multicastPackets, deaf]

/-- A segment for the first positions of the ring, by induction on their number. -/
theorem multicast_spec {h : HandlerRef} {resource : DynamicResource} {ended : Bool} {s : Server}
    (n : Nat) {s' : Server}
    (send : (List.range n).foldlM (fun s j => multicastTo p h ended j s) s = some s')
    (generator : (p.handler h).data = .generator resource) (le : n ≤ s.connections.length)
    : SameSegment s s'
      ∧ s'.connections = (s.connections.take n).map (afterMulticast p s h ended)
        ++ s.connections.drop n
      ∧ s'.sent = s.sent ++ (s.connections.take n).flatMap (multicastPackets p s h) := by
  induction n generalizing s' with
  | zero =>
      simp only [List.range_zero, List.foldlM_nil, Option.pure_def, Option.some.injEq] at send
      subst send
      exact ⟨.refl s, by simp, by simp⟩
  | succ n ih =>
      rw [List.range_succ, List.foldlM_append, Option.bind_eq_bind,
        Option.bind_eq_some_iff] at send
      obtain ⟨t, before, last⟩ := send
      simp only [List.foldlM_cons, List.foldlM_nil, Option.bind_eq_bind, Option.pure_def,
        Option.bind_fun_some] at last
      obtain ⟨same, ring, sent⟩ := ih before (by omega)
      have lt : n < s.connections.length := le
      have at_n : t.connections[n]? = some s.connections[n] := by
        rw [ring, List.getElem?_append_right (by simp [le_of_lt lt])]
        simp [le_of_lt lt, lt]
      obtain ⟨same', ring', sent'⟩ := multicastTo_spec last generator at_n
      refine ⟨same.trans same', ?_, ?_⟩
      · rw [ring', same.after, ring, List.take_succ_eq_append_getElem lt, List.map_append,
          List.set_append_right _ _ (by simp [le_of_lt lt])]
        simp only [List.length_map, List.length_take, min_eq_left (le_of_lt lt), Nat.sub_self]
        rw [List.drop_eq_getElem_cons lt, List.set_cons_zero, List.map_singleton,
          List.append_assoc, List.singleton_append]
      · rw [sent', same.packets, sent, List.take_succ_eq_append_getElem lt, List.flatMap_append,
          List.append_assoc, List.flatMap_singleton]

/-- The emission of a comet segment: every listener that is able to send gets the same one. -/
theorem emit_comet {i : Nat} {h : HandlerRef} {resource : DynamicResource} {ended : Bool}
    {s s' : Server} (send : emit p i h ended s = some s')
    (generator : (p.handler h).data = .generator resource) (comet : (p.handler h).handlerComet)
    : SameSegment s s' ∧ s'.connections = s.connections.map (afterMulticast p s h ended)
      ∧ s'.sent = s.sent ++ s.connections.flatMap (multicastPackets p s h) := by
  rw [emit, if_pos comet] at send
  have spec := multicast_spec s.connections.length send generator le_rfl
  rwa [List.take_length, List.drop_length, List.append_nil] at spec

--------------------------------------------------
-- One call
--------------------------------------------------

/-- After the emission nothing is sent, and the connection may lose its service. -/
theorem concludeSegment_ring {i : Nat} {a : Addr} {h : HandlerRef} {retransmitting ended : Bool}
    {c : HttpConnection} {s s' : Server}
    (step : concludeSegment p i a h retransmitting ended s = some s') (here : s.http i = some c)
    : s'.sent = s.sent ∧ ∃ service,
      s'.connections = (s.setHttp i { c with generatorService := service }).connections := by
  unfold concludeSegment at step
  dsimp only at step
  rw [Option.bind_eq_bind, Option.bind_eq_some_iff] at step
  obtain ⟨c', here', rest⟩ := step
  have same : c' = c := by
    split at here' <;> exact Option.some.inj (here'.symm.trans here)
  subst same
  split at rest <;> simp only [Option.some.injEq] at rest <;> subst rest
  · refine ⟨?_, none, ?_⟩ <;> (repeat' split) <;> rfl
  · refine ⟨?_, c'.generatorService, Eq.trans ?_ (setHttp_self here).symm⟩ <;>
      (repeat' split) <;> rfl

/-- How a call of `smews_send` comes to emit a segment of a generator. -/
structure Emitting (p : Program) (s s' : Server) (e : Emission) (i : Nat) (before : List Connection)
    (resource : DynamicResource) (t u : Server)
    : Prop where
  chosen : s.connections.findIdx? (·.ableToSend p) = some i
  able : (Connection.mk e.addr (.http e.connection)).ableToSend p
  ring : (rotate i s).connections = before ++ [⟨e.addr, .http e.connection⟩]
  ready : e.connection.request.readyToSend
  noAck : e.connection.cometSendAck = false
  handler : e.connection.outputHandler = some e.handler
  generator : (p.handler e.handler).data = .generator resource
  opened : ∃ a, openService p before.length e.connection e.handler resource (rotate i s) = (some a, t)
    ∧ ∃ c, t.http before.length = some c
      ∧ prepareSegment p before.length a c e.handler t = some (.go e.ended e.server)
      ∧ emit p before.length e.handler e.ended e.server = some u
      ∧ ∃ retransmitting,
        concludeSegment p before.length a e.handler retransmitting e.ended u = some s'

theorem smewsSend_emission {s s' : Server} {e : Emission} (send : smewsSend p s = some s')
    (emits : emission p s = some e)
    : ∃ i before resource t u, Emitting p s s' e i before resource t u := by
  unfold emission at emits
  by_cases rst : s.rstConnection.port = 0
  swap
  · rw [if_pos rst] at emits
    cases emits
  rw [if_neg (not_not.mpr rst), Option.bind_eq_bind, Option.bind_eq_some_iff] at emits
  obtain ⟨i, chosen, emits⟩ := emits
  obtain ⟨lt, able, -⟩ := List.findIdx?_eq_some_iff_getElem.mp chosen
  unfold smewsSend at send
  rw [if_neg (not_not.mpr rst), chosen] at send
  cases connection : s.connections[i] with
  | mk addr protocol =>
  rw [connection] at able
  have at_i : s.connections[i]? = some ⟨addr, protocol⟩ := by
    rw [List.getElem?_eq_getElem lt, connection]
  have last := rotate_last at_i
  generalize s.connections.drop (i + 1) ++ s.connections.take i = before at last
  have length : (rotate i s).connections.length - 1 = before.length := by simp [last]
  have at_last : (rotate i s).connections[before.length]? = some ⟨addr, protocol⟩ := by
    simp [last]
  simp only [length, at_last, Option.bind_eq_bind, Option.bind_some] at send emits
  cases protocol with
  | gpip g => cases emits
  | http c =>
      have here : (rotate i s).http before.length = some c := by simp [Server.http, at_last]
      simp only [sendHttp, here, Option.bind_eq_bind, Option.bind_some] at send
      dsimp only at emits
      split_ifs at send emits with ack
      rw [not_or, not_not, Bool.not_eq_true] at ack
      rw [Option.bind_eq_some_iff] at emits send
      obtain ⟨h, handler, emits⟩ := emits
      obtain ⟨h', handler', send⟩ := send
      rw [handler] at handler'
      cases handler'
      cases data : (p.handler h).data with
      | generator resource =>
          simp only [data] at send emits
          rw [sendGenerator_eq here] at send
          obtain ⟨service, t, opened⟩ : ∃ service t,
            openService p before.length c h resource (rotate i s) = (service, t) := ⟨_, _, rfl⟩
          rw [opened] at send emits
          cases service with
          | none => cases emits
          | some a =>
              dsimp only at send emits
              rw [Option.bind_eq_some_iff] at emits
              obtain ⟨c', here', emits⟩ := emits
              rw [sendService_eq here', Option.bind_eq_some_iff] at send
              rw [Option.bind_eq_some_iff] at emits
              obtain ⟨progress, prepared, emits⟩ := emits
              obtain ⟨progress', prepared', send⟩ := send
              rw [prepared] at prepared'
              cases prepared'
              cases progress with
              | stop v => cases emits
              | go ended v =>
                  simp only [Option.some.injEq] at emits
                  subst emits
                  dsimp only at send
                  rw [Option.bind_eq_some_iff] at send
                  obtain ⟨u, emit_, concluded⟩ := send
                  exact ⟨i, before, resource, t, u, chosen, able, last, ack.1, ack.2, handler, data,
                    a, opened, c', here', prepared, emit_, _, concluded⟩
      | control length flags => simp [data] at emits
      | file file => simp [data] at emits
      | generalIp g => simp [data] at emits

end Smews.Output
