import Smews.Output.Pending
import Smews.Output.Resuming

/-! One segment of the response of a generator that is neither streamed nor multicast, when it is
not a retransmission and every allocation succeeds.
-/

namespace Smews.Output

open Smews.Core

variable {p : Program} {i : Nat} {a : Addr} {c : HttpConnection} {h : HandlerRef} {s : Server}
  {frame : Option Frame} {bytes : List UInt8}

--------------------------------------------------
-- Up to the emission
--------------------------------------------------

/-- What is to be emitted next for a service: the bytes that its next run stores, or the void chunk
after its end.
-/
inductive NextContent (p : Program) (s : Server) (a : Addr) (c : HttpConnection)
    : Option Frame → List UInt8 → Prop
  | run (frame : Option Frame) (bytes : List UInt8)
    (upcoming : Upcoming p s a (isPostOut s c) s.currOutput.maxBytes frame bytes)
    : NextContent p s a c frame bytes
  | void (frame : Frame) (parked : Parked s.heap (.service a) .terminated frame)
    : NextContent p s a c none []

/-- A segment that is about to be emitted, or that was generated so far. -/
structure Segment (i : Nat) (a : Addr) (c : HttpConnection) (header : ServiceHeader)
    (frame : Option Frame) (bytes : List UInt8) (s t : Server)
    : Prop where
  exhausted : t.heap.exhausted = s.heap.exhausted
  rst : t.rstConnection = s.rstConnection
  ring : RequestChanged i c s t
  service : ∃ records, t.service a = { s.service a with inFlightInfos := records }
  header_eq : t.currOutput.serviceHeader = header
  length : t.currOutput.contentLength = UInt16.ofNat bytes.length
  stored : t.currOutput.buffer = none → bytes = []
  content : bytes.length < 65536 → currContent t = bytes
  parked : ∃ f, Parked t.heap (.service a) (if frame.isNone then .terminated else .active) f
    ∧ ∀ g, frame = some g → f = g

/-- Only the current output was set up, and the heap prepared, before the segment was generated. -/
theorem Segment.from {header : ServiceHeader} {t u : Server}
    (segment : Segment i a c header frame bytes t u)
    (exhausted : t.heap.exhausted = s.heap.exhausted) (rst : t.rstConnection = s.rstConnection)
    (connections : t.connections = s.connections) (sent : t.sent = s.sent)
    (service : t.service = s.service)
    : Segment i a c header frame bytes s u :=
  {
    segment with
    exhausted := segment.exhausted.trans exhausted
    rst := segment.rst.trans rst
    ring := segment.ring.after connections sent
    service := by
      rw [← service]
      exact segment.service
  }

/-- A segment is generated, or the void chunk is due. -/
theorem generate_next {t : Server} (plenty : Plentiful t.heap) (here : t.http i = some c)
    (next : NextRun p a (isPostOut t c) t.currOutput.maxBytes t.heap frame bytes
      ∨ ((t.heap.coroutine (.service a)).currContext.status = .terminated
        ∧ (∃ f, Parked t.heap (.service a) .terminated f) ∧ frame = none ∧ bytes = []))
    : ∃ u, generate p i a c false t = some (.go frame.isNone u)
      ∧ Segment i a c (t.service a).serviceHeader frame bytes t u := by
  set t' := t.setOutput { t.currOutput with
    serviceHeader := (t.service a).serviceHeader
    contentLength := 0
    buffer := none
  } with t'_eq
  have setup : setupSegment a c.nextOutseqno false t = t' := rfl
  unfold generate
  dsimp only
  rw [setup]
  rcases next with run | ⟨terminated, ⟨f, parked⟩, rfl, rfl⟩
  · have unended : (t'.heap.coroutine (.service a)).currContext.status ≠ .terminated := run.2.1
    obtain ⟨u, generated, generation⟩ := generateNew_next (s := t') plenty run here
    obtain ⟨buffer, output⟩ := generation.output
    rw [if_neg unended, if_neg Bool.false_ne_true]
    refine ⟨u, generated, {
      exhausted := generation.exhausted
      rst := generation.rst
      ring := generation.ring.after rfl rfl
      service := generation.service
      header_eq := by rw [output]; rfl
      length := by rw [output]
      stored := fun none => by rw [output] at none; cases none
      content := generation.content
      parked := generation.parked
    }⟩
  · have status : (t'.heap.coroutine (.service a)).currContext.status = .terminated := terminated
    rw [if_pos status]
    refine ⟨t', rfl, {
      exhausted := rfl
      rst := rfl
      ring := .of_eq here rfl rfl
      service := ⟨_, rfl⟩
      header_eq := rfl
      length := rfl
      stored := fun _ => rfl
      content := fun _ => rfl
      parked := ⟨f, parked, fun _ eq => nomatch eq⟩
    }⟩

/-- The segment of a service that is in order is prepared for the emission. -/
theorem prepareSegment_next (plenty : Plentiful s.heap) (here : s.http i = some c)
    (next : NextContent p s a c frame bytes) (inOrder : (s.service a).currOutseqno = c.nextOutseqno)
    : ∃ t, prepareSegment p i a c h s = some (.go frame.isNone t)
      ∧ Segment i a c
        (selectHeader (p.handler h).handlerStream frame.isNone (s.service a).serviceHeader)
        frame bytes s t := by
  obtain ⟨heap, prepare, prepared, frames⟩ := crPrepare_plenty plenty (.service a)
  set t : Server := { s.setOutput { s.currOutput with
    service := some a
    nextOutseqno := c.nextOutseqno
  } with heap } with t_eq
  have plenty' : Plentiful t.heap := by
    intro n
    show heap.exhausted n = false
    rw [prepared.exhausted]
    exact plenty n
  have next' : NextRun p a (isPostOut t c) t.currOutput.maxBytes t.heap frame bytes
      ∨ ((t.heap.coroutine (.service a)).currContext.status = .terminated
        ∧ (∃ f, Parked t.heap (.service a) .terminated f) ∧ frame = none ∧ bytes = []) := by
    cases next with
    | run frame bytes upcoming =>
        have same : isPostOut t c = isPostOut s c := by
          simp only [isPostOut, t_eq, prepared.postData]
        rw [same]
        exact .inl (upcoming.prepared prepared frames)
    | void f parked =>
        have status := prepared.status.trans parked.status
        exact .inr ⟨status, ⟨_, status, .inl ⟨prepared.crInStack, rfl⟩⟩, rfl, rfl⟩
  obtain ⟨u, generated, segment⟩ := generate_next plenty' here next'
  have again : (c.nextOutseqno != (s.service a).currOutseqno) = false := by
    rw [inOrder, bne_self_eq_false]
  refine ⟨u.setOutput { u.currOutput with
    serviceHeader := selectHeader (p.handler h).handlerStream frame.isNone u.currOutput.serviceHeader
  }, ?_, ?_⟩
  · unfold prepareSegment
    dsimp only [Server.setOutput]
    rw [prepare]
    dsimp only
    rw [again, nextSegment, Bool.and_false, if_neg Bool.false_ne_true]
    rw [show generate p i a c false { s with
        heap
        currOutput := { s.currOutput with service := some a, nextOutseqno := c.nextOutseqno } }
      = some (.go frame.isNone u) from generated]
    rfl
  · have segment := segment.from (s := s) prepared.exhausted rfl rfl rfl rfl
    have header : u.currOutput.serviceHeader = (s.service a).serviceHeader := segment.header_eq
    exact {
      exhausted := segment.exhausted
      rst := segment.rst
      ring := segment.ring
      service := segment.service
      header_eq := by rw [← header]; rfl
      length := segment.length
      stored := segment.stored
      content := segment.content
      parked := segment.parked
    }

--------------------------------------------------
-- The emission
--------------------------------------------------

/-- A connection after a segment of its response was sent. -/
def afterSegment (c : HttpConnection) (length : Nat) (last : Bool) : HttpConnection :=
  {
    c with
    nextOutseqno := c.nextOutseqno + UInt32.ofNat length
    inflight := c.inflight + UInt16.ofNat length
    finalOutseqno := if last then c.nextOutseqno + UInt32.ofNat length else c.finalOutseqno
  }

/-- A call of `smews_send` that emitted a segment of a response. -/
structure Responded (p : Program) (i : Nat) (a b : Addr) (h : HandlerRef) (c : HttpConnection)
    (header : ServiceHeader) (frame : Option Frame) (bytes : List UInt8) (s s' : Server)
    : Prop where
  exhausted : s'.heap.exhausted = s.heap.exhausted
  rst : s'.rstConnection = s.rstConnection
  sent : s'.sent = s.sent ++ [(some a, packetFor p c h (generatorPayload header bytes))]
  ring : ∃ time request, request.readyToSend = c.request.readyToSend
    ∧ s'.connections = (s.setHttp i {
      afterSegment c (generatorPayload header bytes).length (header = .standard || bytes.isEmpty) with
      transmissionTime := time
      request
    }).connections
  header_eq : (s'.service b).serviceHeader = header
  currOutseqno : (s'.service b).currOutseqno
    = c.nextOutseqno + UInt32.ofNat (generatorPayload header bytes).length
  parked : ∃ f, Parked s'.heap (.service b) (if frame.isNone then .terminated else .active) f
    ∧ ∀ g, frame = some g → f = g

/-- The segment of a generator moves the sequence numbers on. -/
theorem advance_segment {t : Server} {resource : DynamicResource}
    (generator : (p.handler h).data = .generator resource) (length : Nat)
    : advance p t c h length
      = afterSegment c length
        (t.currOutput.serviceHeader = .standard || t.currOutput.contentLength = 0) := by
  unfold advance afterSegment
  rw [isSyn_generator generator, if_neg Bool.false_ne_true]
  simp only [generator, Bool.or_eq_true, decide_eq_true_eq]
  split <;> rfl

theorem sendPacket_eq {payload : List UInt8} (at_i : s.connections[i]? = some ⟨a, .http c⟩)
    (handler : c.outputHandler = some h) (content : segmentPayload p s c h = some payload)
    : sendPacket p i s = some {
      s.setHttp i { advance p s c h payload.length with
        transmissionTime := s.lastTransmissionTime } with
      sent := s.sent ++ [(some a, packetFor p c h payload)]
      outputDone := s.outputDone ++ [(s.getCurrentRemoteIp, packetFor p c h payload)]
    } := by
  simp [sendPacket, at_i, handler, content]

/-- The service moves on after a segment was emitted for the first time. -/
theorem concludeSegment_next {b : Addr} {u : Server} (ended : Bool) (here : u.http i = some c)
    (noStream : (p.handler h).handlerStream = false)
    : ∃ v : Server, concludeSegment p i b h false ended u = some (v.setService b { u.service b with
        serviceHeader := u.currOutput.serviceHeader
        currOutseqno := c.nextOutseqno })
      ∧ Still u.heap v.heap ∧ v.connections = u.connections ∧ v.sent = u.sent
      ∧ v.rstConnection = u.rstConnection := by
  unfold concludeSegment
  by_cases persistent : (u.service b).isPersistent
  · refine ⟨u, ?_, .refl _, rfl, rfl, rfl⟩
    simp [persistent, here, noStream]
  · refine ⟨{ u with heap := u.heap.memFree u.currOutput.buffer p.outputBufferSize }, ?_,
      .memFree _ _ _, rfl, rfl, rfl⟩
    have here' : Server.http { u with heap := u.heap.memFree u.currOutput.buffer p.outputBufferSize } i
        = some c := here
    simp [persistent, here', noStream]

/-- A service that is in order emits its next segment. -/
theorem sendService_next {b : Addr} {resource : DynamicResource} (plenty : Plentiful s.heap)
    (at_i : s.connections[i]? = some ⟨a, .http c⟩) (handler : c.outputHandler = some h)
    (generator : (p.handler h).data = .generator resource)
    (noComet : (p.handler h).handlerComet = false) (noStream : (p.handler h).handlerStream = false)
    (next : NextContent p s b c frame bytes) (inOrder : (s.service b).currOutseqno = c.nextOutseqno)
    (fits : bytes.length < 65536)
    : ∃ s', sendService p i b h s = some s'
      ∧ Responded p i a b h c (selectHeader false frame.isNone (s.service b).serviceHeader) frame bytes
        s s' := by
  have here : s.http i = some c := by simp [Server.http, at_i]
  obtain ⟨t, prepare, segment⟩ := prepareSegment_next (h := h) plenty here next inOrder
  rw [noStream] at segment
  set header := selectHeader false frame.isNone (s.service b).serviceHeader with header_eq
  obtain ⟨request, ready, ring, sent⟩ := segment.ring
  have at_t : t.connections[i]? = some ⟨a, .http { c with request }⟩ := by
    simp [ring, Server.setHttp, at_i]
  have payload : currPayload t = generatorPayload header bytes := by
    rw [currPayload, segment.header_eq, segment.content fits]
  have content : segmentPayload p t { c with request } h = some (generatorPayload header bytes) := by
    simp only [segmentPayload, generator]
    rw [if_neg, ← payload, currPayload]
    rintro ⟨unstored, some_⟩
    rw [segment.length, segment.stored (Option.isNone_iff_eq_none.mp unstored)] at some_
    exact some_ rfl
  set c' := { advance p t { c with request } h (generatorPayload header bytes).length with
    transmissionTime := t.lastTransmissionTime } with c'_eq
  set packet := packetFor p { c with request } h (generatorPayload header bytes)
  set u : Server := { t.setHttp i c' with
    sent := t.sent ++ [(some a, packet)]
    outputDone := t.outputDone ++ [(t.getCurrentRemoteIp, packet)]
  } with u_eq
  have emitted : emit p i h frame.isNone t = some u := by
    unfold emit
    rw [noComet, if_neg Bool.false_ne_true]
    exact sendPacket_eq at_t handler content
  have here_u : u.http i = some c' := setHttp_http (s := t) (c := { c with request })
    (by simp [Server.http, at_t])
  have last : (t.currOutput.serviceHeader = .standard || t.currOutput.contentLength = 0 : Bool)
      = (header = .standard || bytes.isEmpty : Bool) := by
    rw [segment.header_eq, segment.length]
    congr 1
    rw [Bool.eq_iff_iff, decide_eq_true_eq, List.isEmpty_iff, ← List.length_eq_zero_iff,
      ← UInt16.toNat_inj, UInt16.toNat_ofNat']
    simp only [UInt16.toNat_zero]
    omega
  have advanced : advance p t { c with request } h (generatorPayload header bytes).length
      = { afterSegment c (generatorPayload header bytes).length (header = .standard || bytes.isEmpty)
        with request } := by
    rw [advance_segment generator, last]
    rfl
  have again : (c.nextOutseqno != (s.service b).currOutseqno) = false := by
    rw [inOrder, bne_self_eq_false]
  rw [sendService_eq here, prepare, Option.bind_some]
  dsimp only
  rw [emitted, Option.bind_some, again]
  obtain ⟨v, conclude, still, connections, sent', rst⟩ :=
    concludeSegment_next (p := p) (b := b) frame.isNone here_u noStream
  obtain ⟨f, parked, same⟩ := segment.parked
  refine ⟨_, conclude, {
    exhausted := still.exhausted.trans segment.exhausted
    rst := rst.trans segment.rst
    sent := sent'.trans (by rw [u_eq]; simp only [sent]; rfl)
    ring := ⟨t.lastTransmissionTime, request, ready, ?_⟩
    header_eq := ?_
    currOutseqno := ?_
    parked := ⟨f, parked.still still, same⟩
  }⟩
  · refine connections.trans ?_
    simp only [u_eq, c'_eq, advanced, Server.setHttp, ring]
    apply List.ext_getElem?
    intro j
    simp only [List.getElem?_modify]
    by_cases hj : i = j
    · subst hj
      simp [at_i]
    · simp [hj]
  · simp only [Server.setService, Function.update_self]
    exact segment.header_eq
  · simp only [Server.setService, Function.update_self, c'_eq, advanced]
    rfl

--------------------------------------------------
-- The first segment
--------------------------------------------------

/-- A service that was created for a connection, with its coroutine ready to run. -/
structure Opened (p : Program) (i : Nat) (b : Addr) (h : HandlerRef) (c : HttpConnection)
    (s t : Server)
    : Prop where
  created : Created p i c h s b t
  exhausted : t.heap.exhausted = s.heap.exhausted
  postData : t.heap.postData = s.heap.postData
  rst : t.rstConnection = s.rstConnection
  connections : t.connections = (s.setHttp i (withService p b h c)).connections

theorem createService_plenty (resource : DynamicResource) (plenty : Plentiful s.heap)
    (here : s.http i = some c) (noComet : (p.handler h).handlerComet = false)
    : ∃ b t, createService p i c h resource s = (some b, t) ∧ Opened p i b h c s t := by
  obtain ⟨heap, alloc, still, -⟩ := memAlloc_plenty plenty p.sizeofService
  set b := s.heap.next
  set t := initService p i c h resource b { s with heap } with t_eq
  have create : createService p i c h resource s = (some b, t) := by
    unfold createService
    rw [alloc]
  have created := createService_spec create here
  have conns : t.connections = (s.setHttp i (withService p b h c)).connections := by
    rw [t_eq, initService_connections, noComet, if_neg Bool.false_ne_true]
    rfl
  refine ⟨b, t, create, created, ?_, ?_, ?_, conns⟩
  all_goals
    rw [t_eq]
    unfold initService
    simp only [noComet, Bool.false_eq_true, if_false]
  · exact still.exhausted
  · exact still.postData
  · rfl

/-- The function of a service fits the member that is called for it. -/
theorem isDopostout_serviceFunc (s : Server) (c : HttpConnection) (h : HandlerRef)
    : isDopostout (serviceFunc s c h) = isPostOut s c := by
  cases post : c.request.postData with
  | none => simp [serviceFunc, isDopostout, isPostOut, post]
  | some a =>
      cases out : isPostOut s c <;> simp [serviceFunc, isDopostout, post, out]

/-- The first run of a new service is that of its function. -/
theorem Opened.upcoming {b : Addr} {t : Server} {k : Cont} (opened : Opened p i b h c s t)
    (function : startOutput p s.heap (serviceFunc s c h) = some k)
    : Upcoming p t b (isPostOut t (withService p b h c)) t.currOutput.maxBytes
      (produce (maxBytes p c.tcpMss .chunks) k []).1
      (produce (maxBytes p c.tcpMss .chunks) k []).2 := by
  have slot : isPostOut t (withService p b h c) = isPostOut s c := by
    simp only [isPostOut, withService, opened.postData]
  rw [opened.created.maxBytes]
  refine .start k opened.created.status ?_ ?_
  · rw [opened.created.func, slot, isDopostout_serviceFunc]
  · rw [opened.created.func, startOutput_congr p opened.created.chars opened.created.starts,
      function]

end Smews.Output
