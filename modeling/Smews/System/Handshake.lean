import Smews.System.Ring

/-! The handshake: what a connection has to go through before it is established.
-/

namespace Smews.System

open Smews.Core Input Output Runs

variable {p : Program}

--------------------------------------------------
-- The property
--------------------------------------------------

/-- Since a state, a `SYN` and `ACK` with this sequence number was sent to the peer of a
connection.
-/
def SynAckSent (start s : Server) (a : Addr) (c : HttpConnection) (seqno : UInt32) : Prop :=
  ∃ new ackno options, s.sent = start.sent ++ new ∧ (some a, {
    destination := c.ipAddr
    body := .tcp c.port seqno ackno (tcpSyn ||| tcpAck) options []
  }) ∈ new

/-- The handshake of a connection: the `SYN` and `ACK` was sent to its peer, and among the events
is a segment from the peer that acknowledges it.
-/
def Handshaken (start : Server) (events : List Event) (s : Server) (a : Addr) (c : HttpConnection)
    : Prop :=
  ∃ seqno, SynAckSent start s a c seqno
    ∧ ∃ seg, .receive seg ∈ events ∧ isPeer seg ⟨a, .http c⟩ ∧ seg.ackno = seqno + 1

--------------------------------------------------
-- The condition
--------------------------------------------------

/-- Whether an acknowledgement number leaves something in flight. -/
def LeavesInFlight (c : HttpConnection) (ackno : UInt32) : Prop :=
  if c.nextOutseqno - c.inflight.toUInt32 = ackno then ackno = 0 ∧ c.inflight ≠ 0
  else if ackno ≠ 0 ∧ ackno ≤ c.nextOutseqno then (c.nextOutseqno - ackno).toUInt16 ≠ 0
  else c.inflight ≠ 0

/-- What a segment has to be for a connection in `tcp_syn_rcvd`. When it does not end before
`current_inseqno`, it acknowledges a `SYN` that was sent, or leaves something in flight. When it
does, it does not move `next_outseqno` back behind such a `SYN`.
-/
def Awaited (seg : TcpSegment) (c : HttpConnection) : Prop :=
  if c.currentInseqno ≤ seg.endSeqno then
    (c.outputHandler = none ∧ seg.ackno = c.nextOutseqno) ∨ LeavesInFlight c seg.ackno
  else
    c.outputHandler = none → c.nextOutseqno - c.inflight.toUInt32 = seg.ackno → c.inflight = 0

/-- The condition on a step, for the connection of a peer. -/
def HandshakeGuard (p : Program) (ipAddr : UInt32) (port : UInt16) (s : Server) : Event → Prop
  | .receive seg =>
      seg.srcAddr = ipAddr → seg.srcPort = port → seg.dstPort % 256 = 80 → seg.checksumValid
        → (findConnection p s seg).2.tcpState = .synRcvd → Awaited seg (findConnection p s seg).2
  | _ => True

instance (c : HttpConnection) (ackno : UInt32) : Decidable (LeavesInFlight c ackno) :=
  inferInstanceAs (Decidable (@ite _ _ _ _ _))

instance (seg : TcpSegment) (c : HttpConnection) : Decidable (Awaited seg c) :=
  inferInstanceAs (Decidable (@ite _ _ _ _ _))

instance (ipAddr : UInt32) (port : UInt16) (s : Server) (event : Event)
    : Decidable (HandshakeGuard p ipAddr port s event) :=
  match event with
  | .receive _ => inferInstanceAs (Decidable (_ → _))
  | .receiveGpIp .. | .send | .retransmit | .push _ | .packetOut .. => .isTrue trivial

/-- A step that meets the condition. -/
def GuardedStep (p : Program) (ipAddr : UInt32) (port : UInt16) (s : Server) (event : Event)
    (s' : Server)
    : Prop :=
  Step p s event s' ∧ HandshakeGuard p ipAddr port s event

--------------------------------------------------
-- The state machine
--------------------------------------------------

/-- Only an acknowledgement number that leaves something in flight keeps `inflight` positive. -/
theorem acknowledge_inflight (c : HttpConnection) (ackno : UInt32)
    : (acknowledge c ackno).1.inflight ≠ 0 ↔ LeavesInFlight c ackno := by
  unfold acknowledge LeavesInFlight
  dsimp only
  by_cases una : c.nextOutseqno - c.inflight.toUInt32 = ackno
  · simp only [if_pos una]
    by_cases zero : ackno = 0
    · simp [zero]
    · simp [zero]
  · simp only [if_neg una]
    split <;> simp

theorem acknowledge_tcpState (c : HttpConnection) (ackno : UInt32)
    : (acknowledge c ackno).1.tcpState = c.tcpState
      ∧ (acknowledge c ackno).1.outputHandler = c.outputHandler
      ∧ (acknowledge c ackno).1.currentInseqno = c.currentInseqno := by
  unfold acknowledge
  dsimp only
  split <;> split <;> exact ⟨rfl, rfl, rfl⟩

/-- No response is over while its connection waits for the end of the handshake. -/
theorem clearHandler_synack {c : HttpConnection}
    (handler : c.outputHandler = some .synack ∨ c.outputHandler = none)
    : clearHandler p c = (c, none) := by
  have notDone : responseDone p c = false := by
    rcases handler with synack | none
    · simp [responseDone, synack, HttpConnection.somethingToSend, Program.isControl,
        Program.handler, refSynack, OutputHandler.plain]
    · simp [responseDone, none]
  simp [clearHandler, notDone]

theorem negotiate_frame' (seg : TcpSegment) (c : HttpConnection)
    : (negotiate p seg c).tcpState = c.tcpState
      ∧ (negotiate p seg c).outputHandler = c.outputHandler
      ∧ (negotiate p seg c).nextOutseqno = c.nextOutseqno := by
  unfold negotiate
  dsimp only
  split <;> exact ⟨rfl, rfl, rfl⟩

/-- Where a segment leads a connection in `tcp_syn_rcvd`. -/
theorem received_synRcvd {seg : TcpSegment} {c : HttpConnection} (state : c.tcpState = .synRcvd)
    (handler : c.outputHandler = some .synack ∨ c.outputHandler = none)
    (awaited : Awaited seg c)
    : let r := received p seg c
      (r.tcpState = .established ∧ c.outputHandler = none ∧ seg.ackno = c.nextOutseqno)
      ∨ (r.tcpState = .synRcvd ∧ r.outputHandler = some .synack)
      ∨ (r.tcpState = .synRcvd ∧ r.outputHandler = c.outputHandler
        ∧ (c.outputHandler = none → r.nextOutseqno = c.nextOutseqno)) := by
  obtain ⟨state1, handler1, current1⟩ := acknowledge_tcpState c seg.ackno
  have kept : received p seg c
      = negotiate p seg (sequence seg (acknowledge c seg.ackno).1).2 := by
    have cleared := clearHandler_synack (p := p) (c := (acknowledge c seg.ackno).1)
      (by rwa [handler1])
    simp [received, beforeParsing, cleared]
  dsimp only
  rw [kept, (negotiate_frame' seg _).1, (negotiate_frame' seg _).2.1,
    (negotiate_frame' seg _).2.2]
  unfold Awaited at awaited
  unfold Input.sequence
  dsimp only
  rw [current1]
  split_ifs at awaited ⊢ with order
  · dsimp only
    rw [tcpTransition]
    simp only [state1, state]
    split
    · rename_i settled
      rcases awaited with right | leaves
      · exact .inl ⟨rfl, right⟩
      · exact absurd settled ((acknowledge_inflight c seg.ackno).mpr leaves)
    · exact .inr (.inl ⟨rfl, rfl⟩)
  · refine .inr (.inr ⟨state1.trans state, handler1, fun none => ?_⟩)
    rw [acknowledge_nextOutseqno]
    split
    · rename_i una
      have zero := awaited none una
      rw [← una, zero]
      simp
    · rfl

/-- A connection that is not in `tcp_syn_rcvd` does not get there. -/
theorem received_not_synRcvd {seg : TcpSegment} {c : HttpConnection}
    (open_ : c.tcpState ≠ .listen) (state : c.tcpState ≠ .synRcvd)
    : (received p seg c).tcpState ≠ .synRcvd := by
  have cleared (d : HttpConnection) : (clearHandler p d).1.tcpState = d.tcpState := by
    unfold clearHandler
    split
    · dsimp only
      split <;> rfl
    · rfl
  show (negotiate p seg (sequence seg (clearHandler p (acknowledge c seg.ackno).1).1).2).tcpState
    ≠ .synRcvd
  have same : (clearHandler p (acknowledge c seg.ackno).1).1.tcpState = c.tcpState := by
    rw [cleared, (acknowledge_tcpState c seg.ackno).1]
  generalize (clearHandler p (acknowledge c seg.ackno).1).1 = d at same
  rw [(negotiate_frame' seg _).1]
  unfold Input.sequence
  dsimp only
  split
  · unfold tcpTransition
    simp only [same]
    cases h : c.tcpState with
    | listen => exact absurd h open_
    | synRcvd => exact absurd h state
    | established =>
        dsimp only
        split
        · simp
        · split
          · simp
          · simp
    | closing => simp
    | lastAck => simp
  · rw [same]
    exact state

/-- A new connection waits for its `SYN` and `ACK` to be sent. -/
theorem received_listen {seg : TcpSegment} {s : Server}
    (syn : (received p seg (listenConnection p s seg)).tcpState = .synRcvd)
    : (received p seg (listenConnection p s seg)).outputHandler = some .synack := by
  obtain ⟨state1, handler1, current1⟩ := acknowledge_tcpState (listenConnection p s seg) seg.ackno
  have kept : received p seg (listenConnection p s seg)
      = negotiate p seg (sequence seg (acknowledge (listenConnection p s seg) seg.ackno).1).2 := by
    have cleared := clearHandler_synack (p := p)
      (c := (acknowledge (listenConnection p s seg) seg.ackno).1) (by
        rw [handler1]
        exact .inr rfl)
    simp [received, beforeParsing, cleared]
  rw [kept, (negotiate_frame' seg _).1] at syn
  rw [kept, (negotiate_frame' seg _).2.1]
  unfold Input.sequence at *
  dsimp only at *
  split_ifs at *
  · have listening : (acknowledge (listenConnection p s seg) seg.ackno).1.tcpState = .listen := state1
    simp only [tcpTransition, listening] at *
    split_ifs at *
    rfl
  · rw [state1] at syn
    cases syn

--------------------------------------------------
-- The invariant
--------------------------------------------------

/-- A connection in `tcp_syn_rcvd`: its `SYN` and `ACK` waits to be sent, or was sent with the
number before `next_outseqno`.
-/
structure Waiting (start s : Server) (a : Addr) (c : HttpConnection) : Prop where
  ready : c.request.readyToSend
  noAck : c.cometSendAck = false
  handler : c.outputHandler = some .synack
    ∨ (c.outputHandler = none ∧ ∃ seqno, SynAckSent start s a c seqno ∧ c.nextOutseqno = seqno + 1)

/-- How far a connection of the peer has come. -/
structure Progressed (start : Server) (past : List Event) (s : Server) (a : Addr)
    (c : HttpConnection) : Prop where
  open_ : c.tcpState ≠ .listen
  waiting : c.tcpState = .synRcvd → Waiting start s a c
  shaken : c.tcpState ≠ .synRcvd → Handshaken start past s a c

/-- The invariant of the handshakes with a peer. -/
structure Shaking (ipAddr : UInt32) (port : UInt16) (start : Server) (past : List Event)
    (s : Server) : Prop where
  sent : ∃ new, s.sent = start.sent ++ new
  each : ∀ a c, ⟨a, .http c⟩ ∈ s.connections → c.ipAddr = ipAddr → c.port = port
    → Progressed start past s a c

section Monotone

variable {start s s' : Server} {past : List Event} {a : Addr} {c c' : HttpConnection}

theorem SynAckSent.mono {seqno : UInt32} (sent : SynAckSent start s a c seqno)
    (ipAddr : c'.ipAddr = c.ipAddr) (port : c'.port = c.port)
    (extends_ : ∃ more, s'.sent = s.sent ++ more)
    : SynAckSent start s' a c' seqno := by
  obtain ⟨new, ackno, options, eq, mem⟩ := sent
  obtain ⟨more, extended⟩ := extends_
  refine ⟨new ++ more, ackno, options, by rw [extended, eq, List.append_assoc], ?_⟩
  rw [ipAddr, port]
  exact List.mem_append_left _ mem

theorem Handshaken.mono (shaken : Handshaken start past s a c) (ipAddr : c'.ipAddr = c.ipAddr)
    (port : c'.port = c.port) (extends_ : ∃ more, s'.sent = s.sent ++ more) (event : Event)
    : Handshaken start (past ++ [event]) s' a c' := by
  obtain ⟨seqno, sent, seg, mem, peer, ackno⟩ := shaken
  refine ⟨seqno, sent.mono ipAddr port extends_, seg, List.mem_append_left _ mem, ?_, ackno⟩
  simpa only [isPeer, ipAddr, port] using peer

/-- Only the packets sent matter of a state. -/
theorem Progressed.of_sent (progressed : Progressed start past s a c) (same : s'.sent = s.sent)
    : Progressed start past s' a c := by
  have synAck (seqno : UInt32) (sent : SynAckSent start s a c seqno)
      : SynAckSent start s' a c seqno :=
    sent.mono rfl rfl ⟨[], by rw [same, List.append_nil]⟩
  refine ⟨progressed.open_, fun syn => ?_, fun other => ?_⟩
  · have waiting := progressed.waiting syn
    exact ⟨waiting.ready, waiting.noAck, waiting.handler.imp_right fun ⟨cleared, seqno, sent, next⟩ =>
      ⟨cleared, seqno, synAck seqno sent, next⟩⟩
  · obtain ⟨seqno, sent, seg⟩ := progressed.shaken other
    exact ⟨seqno, synAck seqno sent, seg⟩

/-- A step that keeps what the handshake of a connection depends on. -/
theorem Progressed.mono (progressed : Progressed start past s a c) (ipAddr : c'.ipAddr = c.ipAddr)
    (port : c'.port = c.port) (state : c'.tcpState = c.tcpState)
    (extends_ : ∃ more, s'.sent = s.sent ++ more) (event : Event)
    (kept : c.tcpState = .synRcvd → c'.request.readyToSend = c.request.readyToSend
      ∧ c'.cometSendAck = c.cometSendAck ∧ c'.outputHandler = c.outputHandler
      ∧ (c.outputHandler = none → c'.nextOutseqno = c.nextOutseqno))
    : Progressed start (past ++ [event]) s' a c' := by
  refine ⟨state ▸ progressed.open_, fun syn => ?_, fun other => ?_⟩
  · obtain ⟨ready, noAck, handler⟩ := progressed.waiting (state ▸ syn)
    obtain ⟨ready', noAck', handler', next'⟩ := kept (state ▸ syn)
    refine ⟨ready' ▸ ready, noAck' ▸ noAck, ?_⟩
    rw [handler']
    rcases handler with synack | ⟨none, seqno, sent, next⟩
    · exact .inl synack
    · exact .inr ⟨none, seqno, sent.mono ipAddr port extends_, (next' none).trans next⟩
  · exact (progressed.shaken (state ▸ other)).mono ipAddr port extends_ event

end Monotone

--------------------------------------------------
-- The steps
--------------------------------------------------

section Steps

variable {ipAddr : UInt32} {port : UInt16} {start s s' : Server} {past : List Event}

/-- The segment that the handshake waits for establishes its connection. -/
theorem Progressed.stored {seg : TcpSegment} {a : Addr} {c c' : HttpConnection}
    {service : Option Addr} (progressed : Progressed start past s a c)
    (peer : isPeer seg ⟨a, .http c⟩) (processed : Processed p seg c s.heap c')
    (open_ : c'.tcpState ≠ .listen) (awaited : c.tcpState = .synRcvd → Awaited seg c)
    (sent : s'.sent = s.sent)
    : Progressed start (past ++ [.receive seg]) s' a { c' with generatorService := service } := by
  have extends_ : ∃ more, s'.sent = s.sent ++ more := ⟨[], by rw [sent, List.append_nil]⟩
  have before := received_frame (p := p) seg c
  have after := processed.frame
  have ipAddr := after.ipAddr.trans before.ipAddr
  have port := after.port.trans before.port
  refine ⟨open_, ?_, ?_⟩ <;> intro state <;> dsimp only at state
  · by_cases syn : c.tcpState = .synRcvd
    · have waiting := progressed.waiting syn
      have same : c' = received p seg c := by
        apply processed.unestablished
        rw [← after.tcpState, state]
        simp
      subst same
      refine ⟨by rw [before.request]; exact waiting.ready, by
        rw [before.cometSendAck]; exact waiting.noAck, ?_⟩
      rcases received_synRcvd (p := p) syn (waiting.handler.imp_right And.left) (awaited syn) with
        ⟨established, -⟩ | ⟨-, synack⟩ | ⟨-, handler, next⟩
      · rw [established] at state
        cases state
      · exact .inl synack
      · dsimp only
        rw [handler]
        rcases waiting.handler with synack | ⟨none, seqno, sent, number⟩
        · exact .inl synack
        · exact .inr ⟨none, seqno, sent.mono ipAddr port extends_, (next none).trans number⟩
    · rw [after.tcpState] at state
      exact absurd state (received_not_synRcvd progressed.open_ syn)
  · by_cases syn : c.tcpState = .synRcvd
    · have waiting := progressed.waiting syn
      rcases received_synRcvd (p := p) syn (waiting.handler.imp_right And.left) (awaited syn) with
        ⟨-, none, ackno⟩ | ⟨still, -⟩ | ⟨still, -, -⟩
      · rcases waiting.handler with synack | ⟨-, seqno, sent, number⟩
        · rw [none] at synack
          cases synack
        · refine ⟨seqno, sent.mono ipAddr port extends_, seg, by simp, ?_, ackno.trans number⟩
          simpa only [isPeer, ipAddr, port] using peer
      · exact absurd (after.tcpState.trans still) state
      · exact absurd (after.tcpState.trans still) state
    · exact (progressed.shaken syn).mono ipAddr port extends_ _

theorem Shaking.receive {seg : TcpSegment} (shaking : Shaking ipAddr port start past s)
    (step : smewsReceive p seg s = some s') (guard : HandshakeGuard p ipAddr port s (.receive seg))
    : Shaking ipAddr port start (past ++ [.receive seg]) s' := by
  have sent := (smewsReceive_unheard step).sent
  have extends_ : ∃ more, s'.sent = s.sent ++ more := ⟨[], by rw [sent, List.append_nil]⟩
  have unchanged {a : Addr} {c : HttpConnection} (mem : ⟨a, .http c⟩ ∈ s.connections)
      (ip : c.ipAddr = ipAddr) (source : c.port = port)
      : Progressed start (past ++ [.receive seg]) s' a c :=
    (shaking.each a c mem ip source).mono rfl rfl rfl extends_ _ fun _ => ⟨rfl, rfl, rfl, fun _ => rfl⟩
  refine ⟨sent ▸ shaking.sent, fun b d mem ip source => ?_⟩
  cases smewsReceive_receives step with
  | ignored ring => exact unchanged (ring ▸ mem) ip source
  | freed i _ _ _ ring =>
      rw [ring, List.mem_append] at mem
      exact unchanged (mem.elim List.mem_of_mem_drop List.mem_of_mem_take) ip source
  | stored i a c c' service found at_i peer dst valid processed open_ ring =>
      rw [ring] at mem
      rcases mem_setHttp at_i mem with other | ⟨rfl, rfl⟩
      · exact unchanged other ip source
      · have before := received_frame (p := p) seg c
        have after := processed.frame
        dsimp only at ip source
        rw [after.ipAddr, before.ipAddr] at ip
        rw [after.port, before.port] at source
        have member := List.mem_of_getElem? at_i
        refine (shaking.each b c member ip source).stored peer processed open_ (fun syn => ?_) sent
        simp only [isPeer, Bool.and_eq_true, decide_eq_true_eq] at peer
        have awaited := guard (by rw [← peer.2, ip]) (by rw [← peer.1, source]) dst valid
        rw [found] at awaited
        exact awaited syn
  | added a c' valid processed syn ring =>
      rw [ring, List.mem_append, List.mem_singleton] at mem
      rcases mem with old | new
      · exact unchanged old ip source
      · cases new
        have same : d = received p seg (listenConnection p s seg) := by
          apply processed.unestablished
          rw [← processed.frame.tcpState, syn]
          simp
        have before := received_frame (p := p) seg (listenConnection p s seg)
        refine ⟨by simp [syn], fun _ => ⟨?_, ?_, .inl ?_⟩, fun other => absurd syn other⟩
        · rw [same, before.request]
          rfl
        · rw [same, before.cometSendAck]
          rfl
        · rw [same]
          exact received_listen (same ▸ syn)

/-- A `SYN` and `ACK` leaves. -/
theorem synack_sent {t : Server} {a : Addr} {c : HttpConnection}
    (waiting : Waiting start t a c) (more : ∃ new, t.sent = start.sent ++ new)
    (sent : s'.sent = t.sent ++ [(some a, packetFor p c .synack [])])
    : Waiting start s' a (afterControl none { advance p t c .synack 0 with
        transmissionTime := t.lastTransmissionTime }) := by
  have syn : isSyn p .synack = true := by
    show ((tcpSyn ||| tcpAck) &&& tcpSyn != 0) = true
    decide
  have moved : advance p t c .synack 0 = { c with nextOutseqno := c.nextOutseqno + 1 } := by
    rw [advance, if_pos syn]
  rw [moved]
  refine ⟨waiting.ready, waiting.noAck, .inr ⟨rfl, c.nextOutseqno, ?_, rfl⟩⟩
  obtain ⟨new, eq⟩ := more
  refine ⟨new ++ [(some a, packetFor p c .synack [])], c.currentInseqno, segmentOptions p c .synack,
    ?_, ?_⟩
  · rw [sent, eq, List.append_assoc]
  · rw [List.mem_append, List.mem_singleton]
    exact .inr rfl

/-- A connection in `tcp_syn_rcvd` has nothing but its `SYN` and `ACK` to send. -/
theorem Progressed.synack {t : Server} {a : Addr} {c : HttpConnection} {h : HandlerRef}
    (progressed : Progressed start past t a c) (syn : c.tcpState = .synRcvd)
    (handler : c.outputHandler = some h)
    : h = .synack := by
  rcases (progressed.waiting syn).handler with synack | ⟨none, -⟩
  · rw [handler] at synack
    exact Option.some.inj synack
  · rw [handler] at none
    cases none

/-- The connection that `smews_send` serves. -/
theorem Progressed.serves {t : Server} {before : List Connection} {a b : Addr}
    {c d : HttpConnection} (progressed : ∀ a c, ⟨a, .http c⟩ ∈ before ++ [⟨b, .http d⟩]
      → c.ipAddr = ipAddr → c.port = port → Progressed start past t a c)
    (more : ∃ new, t.sent = start.sent ++ new)
    (ring : t.connections = before ++ [⟨b, .http d⟩]) (serves : Serves p t before b d s')
    (mem : ⟨a, .http c⟩ ∈ s'.connections) (ip : c.ipAddr = ipAddr) (source : c.port = port)
    : Progressed start (past ++ [.send]) s' a c := by
  have own : (⟨b, .http d⟩ : Connection) ∈ before ++ [⟨b, .http d⟩] := by simp
  have others (extends_ : ∃ more, s'.sent = t.sent ++ more) (mem : ⟨a, .http c⟩ ∈ before)
      : Progressed start (past ++ [.send]) s' a c :=
    (progressed a c (List.mem_append_left _ mem) ip source).mono rfl rfl rfl extends_ _
      fun _ => ⟨rfl, rfl, rfl, fun _ => rfl⟩
  cases serves with
  | ack instead sent ring' =>
      have extends_ : ∃ more, s'.sent = t.sent ++ more := ⟨_, sent⟩
      rcases ring' with ⟨-, ring'⟩ | ⟨-, ring'⟩ <;> rw [ring'] at mem
      · exact others extends_ mem
      rw [List.mem_append, List.mem_singleton] at mem
      rcases mem with other | same
      · exact others extends_ other
      · cases same
        obtain ⟨ip1, port1, state1⟩ := afterControl_frame d.outputHandler
          { advance p t { d with outputHandler := some .ack } .ack 0 with
            transmissionTime := t.lastTransmissionTime }
        obtain ⟨ip2, port2, state2, -⟩ :=
          advance_frame (p := p) (t := t) { d with outputHandler := some .ack } .ack 0
        have before := progressed a d own (by rw [← ip, ip1, ip2]) (by rw [← source, port1, port2])
        refine before.mono (ip1.trans ip2) (port1.trans port2) (state1.trans state2) extends_ _
          fun syn => ?_
        have waiting := before.waiting syn
        rcases instead with notReady | ack
        · exact absurd waiting.ready notReady
        · rw [waiting.noAck] at ack
          cases ack
  | control h ready noAck handler isControl sent ring' =>
      have extends_ : ∃ more, s'.sent = t.sent ++ more := ⟨_, sent⟩
      rcases ring' with ⟨-, ring'⟩ | ⟨-, ring'⟩ <;> rw [ring'] at mem
      · exact others extends_ mem
      rw [List.mem_append, List.mem_singleton] at mem
      rcases mem with other | same
      · exact others extends_ other
      · cases same
        obtain ⟨ip1, port1, state1⟩ := afterControl_frame none
          { advance p t d h 0 with transmissionTime := t.lastTransmissionTime }
        obtain ⟨ip2, port2, state2, -⟩ := advance_frame (p := p) (t := t) d h 0
        have before := progressed a d own (by rw [← ip, ip1, ip2]) (by rw [← source, port1, port2])
        have state := state1.trans state2
        refine ⟨state ▸ before.open_, fun syn => ?_, fun other => ?_⟩
        · have handler' := before.synack (state ▸ syn) handler
          subst handler'
          exact synack_sent (before.waiting (state ▸ syn)) more sent
        · exact (before.shaken (state ▸ other)).mono (ip1.trans ip2) (port1.trans port2) extends_ _
  | file h file payload ready noAck handler isFile content sent ring' =>
      have extends_ : ∃ more, s'.sent = t.sent ++ more := ⟨_, sent⟩
      rw [ring', List.mem_append, List.mem_singleton] at mem
      rcases mem with other | same
      · exact others extends_ other
      · cases same
        obtain ⟨ip1, port1, state1, -⟩ := advance_frame (p := p) (t := t) d h payload.length
        have before := progressed a d own (by rw [← ip]; exact ip1.symm)
          (by rw [← source]; exact port1.symm)
        refine before.mono ?_ ?_ ?_ extends_ _ fun syn => ?_
        · exact ip1
        · exact port1
        · exact state1
        · have handler' := before.synack syn handler
          subst handler'
          cases isFile
  | generator h resource ready noAck handler isGenerator call served =>
      obtain ⟨new, sent, -⟩ := served.sent
      have extends_ : ∃ more, s'.sent = t.sent ++ more := ⟨new, sent⟩
      obtain ⟨c0, mem0, same⟩ := mem_ringServed served mem
      rw [ring] at mem0
      rcases same with rfl | pair
      · exact (progressed a c mem0 ip source).mono rfl rfl rfl extends_ _
          fun _ => ⟨rfl, rfl, rfl, fun _ => rfl⟩
      · have before := progressed a c0 mem0 (by rw [← ip, pair.ipAddr]) (by rw [← source, pair.port])
        refine before.mono pair.ipAddr pair.port pair.tcpState extends_ _ fun syn => ?_
        have handler' := before.synack syn pair.handler
        subst handler'
        cases isGenerator

theorem Shaking.send (shaking : Shaking ipAddr port start past s) (step : smewsSend p s = some s')
    : Shaking ipAddr port start (past ++ [.send]) s' := by
  obtain ⟨sent, each⟩ := shaking
  have kept (extends_ : ∃ more, s'.sent = s.sent ++ more)
      (subset : ∀ a c, ⟨a, .http c⟩ ∈ s'.connections → ⟨a, .http c⟩ ∈ s.connections)
      : Shaking ipAddr port start (past ++ [.send]) s' := by
    obtain ⟨new, eq⟩ := sent
    refine ⟨?_, fun a c mem ip source => ?_⟩
    · obtain ⟨more, eq'⟩ := extends_
      exact ⟨new ++ more, by rw [eq', eq, List.append_assoc]⟩
    · exact (each a c (subset a c mem) ip source).mono rfl rfl rfl extends_ _
        fun _ => ⟨rfl, rfl, rfl, fun _ => rfl⟩
  cases smewsSend_sends step with
  | nothing _ _ same =>
      subst same
      exact kept ⟨[], (List.append_nil _).symm⟩ fun _ _ => id
  | reset rst same =>
      subst same
      exact kept ⟨_, rfl⟩ fun _ _ => id
  | gpip i before b g rst chosen ring answered =>
      obtain ⟨_, -, sent'⟩ := answered.sent
      refine kept ⟨_, sent'⟩ fun a c mem => ?_
      rw [answered.ring] at mem
      exact mem_rotate.mp (ring ▸ List.mem_append_left _ mem)
  | http i before b d rst chosen able ring serves =>
      have progressed (a : Addr) (c : HttpConnection) (mem : ⟨a, .http c⟩ ∈ before ++ [⟨b, .http d⟩])
          (ip : c.ipAddr = ipAddr) (source : c.port = port)
          : Progressed start past (rotate i s) a c := by
        rw [← ring, mem_rotate] at mem
        exact (each a c mem ip source).of_sent rfl
      refine ⟨?_, fun a c mem ip source => .serves progressed sent ring serves mem ip source⟩
      obtain ⟨new, eq⟩ := sent
      obtain ⟨more, eq'⟩ := smewsSend_extends step
      exact ⟨new ++ more, by rw [eq', eq, List.append_assoc]⟩

/-- A change of all the HTTP connections that leaves the handshakes alone. -/
theorem Shaking.mapHttp {f : HttpConnection → HttpConnection} {t : Server}
    (shaking : Shaking ipAddr port start past s) (event : Event)
    (connections : t.connections = s.connections) (sent : t.sent = s.sent)
    (frame : ∀ c, (f c).ipAddr = c.ipAddr ∧ (f c).port = c.port ∧ (f c).tcpState = c.tcpState
      ∧ (f c).request = c.request ∧ (f c).outputHandler = c.outputHandler)
    (noAck : ∀ c, c.cometSendAck = false → (f c).cometSendAck = false)
    (next : ∀ c, c.outputHandler = none → (f c).nextOutseqno = c.nextOutseqno)
    : Shaking ipAddr port start (past ++ [event]) (System.mapHttp f t) := by
  have extends_ : ∃ more, (System.mapHttp f t).sent = s.sent ++ more :=
    ⟨[], by rw [List.append_nil]; exact sent⟩
  refine ⟨?_, fun a c mem ip source => ?_⟩
  · obtain ⟨new, eq⟩ := shaking.sent
    exact ⟨new, sent.trans eq⟩
  · obtain ⟨d, old, rfl⟩ := mem_mapHttp.mp mem
    obtain ⟨ip', port', state, request, handler⟩ := frame d
    rw [connections] at old
    have before := shaking.each a d old (ip' ▸ ip) (port' ▸ source)
    refine before.mono ip' port' state extends_ event fun syn => ?_
    have waiting := before.waiting syn
    exact ⟨by rw [request], (noAck d waiting.noAck).trans waiting.noAck.symm, handler, next d⟩

theorem Shaking.step {event : Event} (shaking : Shaking ipAddr port start past s)
    (step : GuardedStep p ipAddr port s event s')
    : Shaking ipAddr port start (past ++ [event]) s' := by
  obtain ⟨step, guard⟩ := step
  have others {event : Event} (sent : s'.sent = s.sent)
      (subset : ∀ a c, ⟨a, .http c⟩ ∈ s'.connections → ⟨a, .http c⟩ ∈ s.connections)
      : Shaking ipAddr port start (past ++ [event]) s' :=
    ⟨sent ▸ shaking.sent, fun a c mem ip source =>
      (shaking.each a c (subset a c mem) ip source).mono rfl rfl rfl
        ⟨[], by rw [sent, List.append_nil]⟩ _ fun _ => ⟨rfl, rfl, rfl, fun _ => rfl⟩⟩
  cases event with
  | receive seg => exact shaking.receive step guard
  | receiveGpIp srcAddr protocol payload =>
      exact others ((smewsReceiveGpIp_done step).1) fun a c => smewsReceiveGpIp_http step
  | send => exact shaking.send step
  | retransmit =>
      simp only [Step, next, Option.some.injEq] at step
      subst step
      refine shaking.mapHttp .retransmit rfl rfl (fun c => ?_) (fun c => ?_) fun c cleared => ?_
      · unfold rollBack
        split <;> exact ⟨rfl, rfl, rfl, rfl, rfl⟩
      · unfold rollBack
        split <;> exact id
      · simp [rollBack, cleared]
  | push handler =>
      simp only [Step, next, Option.some.injEq] at step
      by_cases comet : (p.handler handler).handlerComet
      · rw [serverPush, if_pos comet] at step
        subst step
        refine shaking.mapHttp (.push handler) rfl rfl (fun c => ?_) (fun c => ?_) fun c cleared => ?_
        · split <;> exact ⟨rfl, rfl, rfl, rfl, rfl⟩
        · split
          · exact fun _ => rfl
          · exact id
        · simp [cleared]
      · rw [serverPush, if_neg comet] at step
        subst step
        exact others rfl fun _ _ => id
  | packetOut protocol address =>
      simp only [Step, next, Option.some.injEq] at step
      subst step
      refine others ?_ fun a c => requestPacketOutCall_http
      unfold requestPacketOutCall
      split
      · rfl
      · exact (addConnection_unheard s _).sent

end Steps

--------------------------------------------------
-- Runs
--------------------------------------------------

/-- In a run that starts without a connection of a peer, and whose segments in `tcp_syn_rcvd` are
the awaited ones, a connection of the peer is established only after its `SYN` and `ACK` was sent
and acknowledged.
-/
theorem handshake_safe {ipAddr : UInt32} {port : UInt16} {start s : Server} {events : List Event}
    (run : Run (GuardedStep p ipAddr port) start events s)
    (fresh : ∀ a c, ⟨a, .http c⟩ ∈ start.connections → ¬ (c.ipAddr = ipAddr ∧ c.port = port))
    {a : Addr} {c : HttpConnection} (mem : ⟨a, .http c⟩ ∈ s.connections)
    (peer : c.ipAddr = ipAddr ∧ c.port = port) (established : c.tcpState = .established)
    : Handshaken start events s a c := by
  have initial : Shaking ipAddr port start [] start :=
    ⟨⟨[], (List.append_nil _).symm⟩, fun a c mem ip source => absurd ⟨ip, source⟩ (fresh a c mem)⟩
  have shaking := run.invariant_history (Shaking ipAddr port start) Shaking.step initial
  exact (shaking.each a c mem peer.1 peer.2).shaken (by simp [established])

/-- A client connects and sends its request. -/
theorem handshake_safe_hello
    : ∃ s a c, ⟨a, .http c⟩ ∈ s.connections ∧ c.tcpState = .established
      ∧ Handshaken bootServer (requestOf 1000) s a c := by
  have checked : ((runChecked (next (oneGenerator hello noArgs))
      (HandshakeGuard (oneGenerator hello noArgs) 0xc0a80105 4000)
      (requestOf 1000) bootServer).bind fun s =>
        (s.http 0).map fun c => (c.ipAddr, c.port, c.tcpState))
      = some (0xc0a80105, 4000, .established) := by
    decide +kernel
  simp only [Option.bind_eq_some_iff, Option.map_eq_some_iff, Prod.mk.injEq] at checked
  obtain ⟨s, run, c, here, ipAddr, port, established⟩ := checked
  obtain ⟨a, at_0⟩ := http_eq here
  have mem := List.mem_of_getElem? at_0
  exact ⟨s, a, c, mem, established, handshake_safe (Run.of_checked run) (fun _ _ mem => absurd mem List.not_mem_nil)
    mem ⟨ipAddr, port⟩ established⟩

/-- A client that sends a byte without an acknowledgement, right after its `SYN`. -/
def impatient : List Event :=
  [
    .receive (clientSegment 1000 0 tcpSyn 8192 [2, 4, 3, 232] [] (by decide)),
    .receive (clientSegment 1001 0 tcpPsh 8192 [] (ascii "G") (by decide))
  ]

/-- Nothing was sent to the impatient client when its connection is established. -/
theorem handshake_fails_impatient
    : ∃ s a c, Run (Step (oneGenerator hello noArgs)) bootServer impatient s
      ∧ ⟨a, .http c⟩ ∈ s.connections ∧ c.ipAddr = 0xc0a80105 ∧ c.port = 4000
      ∧ c.tcpState = .established ∧ ¬ Handshaken bootServer impatient s a c := by
  have checked : ((runChecked (next (oneGenerator hello noArgs)) (fun _ _ => True)
      impatient bootServer).bind fun s =>
        (s.http 0).map fun c => (c.ipAddr, c.port, c.tcpState, s.sent.isEmpty))
      = some (0xc0a80105, 4000, .established, true) := by
    decide +kernel
  simp only [Option.bind_eq_some_iff, Option.map_eq_some_iff, Prod.mk.injEq] at checked
  obtain ⟨s, run, c, here, ipAddr, port, established, nothing⟩ := checked
  obtain ⟨a, at_0⟩ := http_eq here
  refine ⟨s, a, c, (Run.of_checked run).mono And.left, List.mem_of_getElem? at_0, ipAddr, port,
    established, ?_⟩
  rintro ⟨seqno, ⟨new, ackno, options, sent, mem⟩, -⟩
  rw [List.isEmpty_iff.mp nothing] at sent
  rw [(List.append_eq_nil_iff.mp sent.symm).2] at mem
  cases mem

end Smews.System
