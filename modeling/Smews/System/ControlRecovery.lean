import Smews.System.Peers

/-! Lost control packets: what a retransmitted `SYN` or `FIN` queues on its connection.
-/

namespace Smews.System

open Smews.Core Input Output Runs

variable {p : Program}

--------------------------------------------------
-- The property
--------------------------------------------------

/-- The control packet that a connection in a state has to get through. -/
inductive Awaits : TcpState → HandlerRef → Prop
  | syn : Awaits .synRcvd .synack
  | fin : Awaits .lastAck .finack

/-- The peer of a segment has a connection in a state. -/
def InState (seg : TcpSegment) (state : TcpState) (s : Server) : Prop :=
  ∃ a c, ⟨a, .http c⟩ ∈ s.connections ∧ isPeer seg ⟨a, .http c⟩ ∧ c.tcpState = state

/-- A segment that the peer sends again: its acknowledgement number, window and options may be others. -/
structure Retransmits (first again : TcpSegment) : Prop where
  srcAddr : again.srcAddr = first.srcAddr
  srcPort : again.srcPort = first.srcPort
  port : again.dstPort % 256 = 80
  seqno : again.endSeqno = first.endSeqno
  flags : again.flags = first.flags
  valid : again.checksumValid = true

/-- A control packet is queued on the connection of the peer, to be sent with a sequence number. -/
def Recovered (seg : TcpSegment) (h : HandlerRef) (number : UInt32) (s : Server) : Prop :=
  ∃ a c, ⟨a, .http c⟩ ∈ s.connections ∧ isPeer seg ⟨a, .http c⟩ ∧ c.outputHandler = some h
    ∧ c.nextOutseqno = number

--------------------------------------------------
-- The condition
--------------------------------------------------

/-- The control packet still waits to be sent, with this sequence number after an acknowledgement number that moves
`next_outseqno` back to the first byte in flight.
-/
def StillQueued (seg : TcpSegment) (h : HandlerRef) (number : UInt32) (s : Server) : Prop :=
  ∃ a c, ⟨a, .http c⟩ ∈ s.connections ∧ isPeer seg ⟨a, .http c⟩ ∧ c.outputHandler = some h
    ∧ (if c.nextOutseqno - c.inflight.toUInt32 = seg.ackno then seg.ackno else c.nextOutseqno) = number

/-- A step that leaves the connection of a peer in a state. -/
def StaysIn (p : Program) (seg : TcpSegment) (state : TcpState) (s : Server) (event : Event) (s' : Server)
    : Prop :=
  Step p s event s' ∧ InState seg state s'

--------------------------------------------------
-- The headers of a segment
--------------------------------------------------

/-- What a segment that ends before `current_inseqno` makes of a connection: nothing but what its acknowledgement
number, its window and its options ask for.
-/
theorem received_old {seg : TcpSegment} {c : HttpConnection} (old : seg.endSeqno < c.currentInseqno)
    : (received p seg c).tcpState = c.tcpState ∧ (received p seg c).currentInseqno = c.currentInseqno
      ∧ (received p seg c).nextOutseqno
        = (if c.nextOutseqno - c.inflight.toUInt32 = seg.ackno then seg.ackno else c.nextOutseqno)
      ∧ ∀ h, p.isControl h
        → ((received p seg c).outputHandler = some h ↔ c.outputHandler = some h) := by
  have acked := acknowledge_nextOutseqno c seg.ackno
  have kept : (acknowledge c seg.ackno).1.tcpState = c.tcpState
      ∧ (acknowledge c seg.ackno).1.currentInseqno = c.currentInseqno
      ∧ (acknowledge c seg.ackno).1.outputHandler = c.outputHandler := by
    unfold acknowledge
    dsimp only
    split <;> split <;> exact ⟨rfl, rfl, rfl⟩
  have cleared (d : HttpConnection) : (clearHandler p d).1.tcpState = d.tcpState
      ∧ (clearHandler p d).1.currentInseqno = d.currentInseqno
      ∧ (clearHandler p d).1.nextOutseqno = d.nextOutseqno
      ∧ ∀ h, p.isControl h → ((clearHandler p d).1.outputHandler = some h ↔ d.outputHandler = some h) := by
    unfold clearHandler
    split
    · next done =>
        refine ⟨by dsimp only; split <;> rfl, by dsimp only; split <;> rfl, by dsimp only; split <;> rfl,
          fun h control => ?_⟩
        have other : d.outputHandler ≠ some h := by
          intro own
          simp [responseDone, own, HttpConnection.somethingToSend, control] at done
        dsimp only
        split
        · rfl
        · simp [other]
    · exact ⟨rfl, rfl, rfl, fun _ _ => Iff.rfl⟩
  obtain ⟨state, current, handler⟩ := kept
  obtain ⟨state', current', next', handler'⟩ := cleared (acknowledge c seg.ackno).1
  have sequenced : (Input.sequence seg (clearHandler p (acknowledge c seg.ackno).1).1).2
      = (clearHandler p (acknowledge c seg.ackno).1).1 := by
    unfold Input.sequence
    dsimp only
    rw [if_neg]
    rw [current', current, UInt32.not_le]
    exact old
  have eq : received p seg c = negotiate p seg (clearHandler p (acknowledge c seg.ackno).1).1 := by
    show negotiate p seg (Input.sequence seg (clearHandler p (acknowledge c seg.ackno).1).1).2 = _
    rw [sequenced]
  have negotiated (d : HttpConnection) : (negotiate p seg d).tcpState = d.tcpState
      ∧ (negotiate p seg d).currentInseqno = d.currentInseqno
      ∧ (negotiate p seg d).nextOutseqno = d.nextOutseqno
      ∧ (negotiate p seg d).outputHandler = d.outputHandler := by
    unfold negotiate
    dsimp only
    split <;> exact ⟨rfl, rfl, rfl, rfl⟩
  obtain ⟨state'', current'', next'', handler''⟩ := negotiated (clearHandler p (acknowledge c seg.ackno).1).1
  rw [eq]
  refine ⟨by rw [state'', state', state], by rw [current'', current', current],
    by rw [next'', next', acked], fun h control => ?_⟩
  rw [handler'', handler' h control, handler]

/-- What the headers of a segment make of the state and of `current_inseqno`. -/
theorem received_sequence (seg : TcpSegment) (c : HttpConnection)
    : ∃ d : HttpConnection, d.tcpState = c.tcpState ∧ d.currentInseqno = c.currentInseqno
      ∧ (received p seg c).tcpState = (Input.sequence seg d).2.tcpState
      ∧ (received p seg c).currentInseqno = (Input.sequence seg d).2.currentInseqno := by
  refine ⟨(clearHandler p (acknowledge c seg.ackno).1).1, ?_, ?_, ?_, ?_⟩
  · unfold clearHandler acknowledge
    dsimp only
    repeat' split
    all_goals rfl
  · unfold clearHandler acknowledge
    dsimp only
    repeat' split
    all_goals rfl
  · show (negotiate p seg _).tcpState = _
    unfold negotiate
    dsimp only
    split <;> rfl
  · show (negotiate p seg _).currentInseqno = _
    unfold negotiate
    dsimp only
    split <;> rfl

/-- A `SYN` or `FIN` that brings a connection to one of these states is counted. -/
theorem tcpTransition_enters {seg : TcpSegment} {c : HttpConnection} {state : TcpState} {h : HandlerRef}
    (answers : Awaits state h) (before : c.tcpState ≠ state) (after : (tcpTransition seg c).tcpState = state)
    : (tcpTransition seg c).currentInseqno = c.currentInseqno + 1 := by
  cases c_state : c.tcpState with
  | established =>
      simp only [tcpTransition, c_state] at after ⊢
      split at after
      · next fin => rw [if_pos fin]
      · split at after
        · cases answers <;> cases after
        · exact absurd after before
  | listen =>
      simp only [tcpTransition, c_state] at after ⊢
      split at after
      · next syn => rw [if_pos syn]
      · exact absurd after before
  | synRcvd =>
      simp only [tcpTransition, c_state] at after
      split at after
      · cases answers <;> cases after
      · exact absurd (c_state.trans after) before
  | lastAck =>
      simp only [tcpTransition, c_state] at after
      cases answers <;> cases after
  | closing =>
      simp only [tcpTransition, c_state] at after
      cases answers <;> cases after

/-- The segment that brings a connection to a state of these counts one more than its bytes. -/
theorem received_enters {seg : TcpSegment} {c : HttpConnection} {state : TcpState} {h : HandlerRef}
    (answers : Awaits state h) (before : c.tcpState ≠ state) (after : (received p seg c).tcpState = state)
    : (received p seg c).currentInseqno = seg.endSeqno + 1 := by
  obtain ⟨d, state_eq, -, state', current'⟩ := received_sequence (p := p) seg c
  rw [state'] at after
  rw [current']
  rw [← state_eq] at before
  unfold Input.sequence at after ⊢
  dsimp only at after ⊢
  split at after
  · next order =>
      rw [if_pos order]
      exact tcpTransition_enters answers (by exact before) after
  · exact absurd after before

/-- In such a state `current_inseqno` does not go back. -/
theorem received_stays {seg : TcpSegment} {c : HttpConnection} {state : TcpState} {h : HandlerRef}
    (answers : Awaits state h) (before : c.tcpState = state) (after : (received p seg c).tcpState = state)
    {number : UInt32} (above : number < c.currentInseqno)
    : number < (received p seg c).currentInseqno := by
  obtain ⟨d, state_eq, current, state', current'⟩ := received_sequence (p := p) seg c
  rw [state'] at after
  rw [current']
  rw [← state_eq] at before
  rw [← current] at above
  unfold Input.sequence at after ⊢
  dsimp only at after ⊢
  split at after
  · next order =>
      rw [if_pos order]
      have moved : number < seg.endSeqno := UInt32.lt_of_lt_of_le above order
      dsimp only at after ⊢
      unfold tcpTransition at after ⊢
      dsimp only at after ⊢
      cases answers with
      | syn =>
          simp only [before] at after ⊢
          split_ifs at after ⊢
          exact moved
      | fin =>
          simp only [before] at after
          cases after
  · next order =>
      rw [if_neg order]
      exact above

--------------------------------------------------
-- The retransmission
--------------------------------------------------

/-- A valid segment for a connection that it does not establish is stored without parsing. -/
theorem smewsReceive_unparsed {seg : TcpSegment} {s s' : Server} {a : Addr} {c : HttpConnection}
    (distinct : (peers s.connections).Nodup) (mem : ⟨a, .http c⟩ ∈ s.connections)
    (peer : isPeer seg ⟨a, .http c⟩) (port : seg.dstPort % 256 = 80) (valid : seg.checksumValid = true)
    (unestablished : (received p seg c).tcpState ≠ .established)
    (opened : (received p seg c).tcpState ≠ .listen) (step : smewsReceive p seg s = some s')
    : ∃ i service, s.connections[i]? = some ⟨a, .http c⟩
      ∧ s'.connections
        = (s.setHttp i { received p seg c with generatorService := service }).connections := by
  rcases findConnection_cases (p := p) s seg with ⟨i, b, d, found, at_i, own⟩ | ⟨-, absent⟩
  swap
  · exact absurd peer (absent _ mem)
  have same := peer_unique distinct mem (List.mem_of_getElem? at_i) (isPeer_iff.mp peer) (isPeer_iff.mp own)
  obtain ⟨rfl, eq⟩ := Connection.mk.inj same
  obtain rfl := Protocol.http.inj eq
  unfold smewsReceive at step
  rw [if_pos port, Option.bind_eq_bind, Option.bind_eq_some_iff] at step
  obtain ⟨outcome, processing, rest⟩ := step
  rw [found] at processing rest
  have unparsed (new : Bool) : ¬ isParsed seg new (received p seg c) := by
    simp [isParsed, unestablished]
  have unqueued : queueAck seg (received p seg c) = received p seg c := by
    rw [queueAck, if_neg]
    exact fun queued => unestablished queued.2.1
  cases outcome with
  | inr heap =>
      unfold process at processing
      split at processing
      rename_i new c' clean free before
      have eq : received p seg c = c' := by rw [received, before]
      rw [← eq, if_neg (unparsed new)] at processing
      cases processing
  | inl d =>
      dsimp only at rest
      rw [if_pos valid] at rest
      have stored : d.connection = received p seg c := by
        cases process_processed processing with
        | parsed o data parse result => exact absurd data (unparsed _)
        | plain noData result => rw [result, unqueued]
      unfold commit at rest
      rw [Option.bind_eq_bind, Option.bind_eq_some_iff] at rest
      obtain ⟨⟨c', t⟩, service, rest⟩ := rest
      obtain ⟨ring, kept⟩ := commitService_spec service
      rw [stored] at kept
      dsimp only at rest
      rw [if_neg (by rw [kept]; exact opened)] at rest
      refine ⟨i, c'.generatorService, at_i, ?_⟩
      rw [← Option.some.inj rest, ← kept]
      simp only [Server.setHttp, ring]

/-- A retransmission that ends before `current_inseqno` queues nothing: the control packet is queued afterwards
when it was queued before.
-/
theorem recovered_iff {seg : TcpSegment} {s s' : Server} {a : Addr} {c : HttpConnection} {state : TcpState}
    {h : HandlerRef} (answers : Awaits state h) (distinct : (peers s.connections).Nodup)
    (mem : ⟨a, .http c⟩ ∈ s.connections) (peer : isPeer seg ⟨a, .http c⟩) (in_ : c.tcpState = state)
    (port : seg.dstPort % 256 = 80) (valid : seg.checksumValid = true)
    (old : seg.endSeqno < c.currentInseqno) (step : smewsReceive p seg s = some s') (number : UInt32)
    : Recovered seg h number s' ↔ StillQueued seg h number s := by
  obtain ⟨tcpState, -, next, handler⟩ := received_old (p := p) old
  have control : p.isControl h := by cases answers <;> rfl
  have unestablished : (received p seg c).tcpState ≠ .established := by
    rw [tcpState, in_]
    cases answers <;> decide
  have opened : (received p seg c).tcpState ≠ .listen := by
    rw [tcpState, in_]
    cases answers <;> decide
  obtain ⟨i, service, at_i, ring⟩ := smewsReceive_unparsed distinct mem peer port valid unestablished opened step
  have frame := received_frame (p := p) seg c
  have distinct' : (peers s'.connections).Nodup := by
    rw [ring, peers_setHttp at_i (by exact frame.ipAddr) (by exact frame.port)]
    exact distinct
  have mem' : ⟨a, .http { received p seg c with generatorService := service }⟩ ∈ s'.connections := by
    rw [ring]
    refine List.mem_of_getElem? (i := i) ?_
    simp [Server.setHttp, at_i]
  have peer' : isPeer seg ⟨a, .http { received p seg c with generatorService := service }⟩ := by
    rw [isPeer_iff] at peer ⊢
    simpa [peerOf, frame.ipAddr, frame.port] using peer
  constructor
  · rintro ⟨b, d, other, own, queued, carries⟩
    have same := peer_unique distinct' mem' other (isPeer_iff.mp peer') (isPeer_iff.mp own)
    obtain ⟨rfl, eq⟩ := Connection.mk.inj same
    obtain rfl := Protocol.http.inj eq
    exact ⟨a, c, mem, peer, (handler h control).mp queued, next.symm.trans carries⟩
  · rintro ⟨b, d, other, own, queued, carries⟩
    have same := peer_unique distinct mem other (isPeer_iff.mp peer) (isPeer_iff.mp own)
    obtain ⟨rfl, eq⟩ := Connection.mk.inj same
    obtain rfl := Protocol.http.inj eq
    exact ⟨a, _, mem', peer', (handler h control).mpr queued, next.trans carries⟩

--------------------------------------------------
-- Runs
--------------------------------------------------

/-- What holds of the connection of a peer since a segment brought it to a state. -/
structure Since (first : TcpSegment) (state : TcpState) (s : Server) : Prop where
  distinct : (peers s.connections).Nodup
  connected : (first.srcAddr, first.srcPort) ∈ peers s.connections
  each : ∀ a c, ⟨a, .http c⟩ ∈ s.connections → isPeer first ⟨a, .http c⟩
    → c.tcpState = state ∧ first.endSeqno < c.currentInseqno

/-- The only connection of the peer speaks for all of them. -/
theorem Since.of_one {first : TcpSegment} {state : TcpState} {s : Server} {a : Addr} {c : HttpConnection}
    (distinct : (peers s.connections).Nodup) (mem : ⟨a, .http c⟩ ∈ s.connections)
    (peer : isPeer first ⟨a, .http c⟩) (in_ : c.tcpState = state) (above : first.endSeqno < c.currentInseqno)
    : Since first state s := by
  refine ⟨distinct, List.mem_filterMap.mpr ⟨_, mem, isPeer_iff.mp peer⟩, fun b d other own => ?_⟩
  have same := peer_unique distinct mem other (isPeer_iff.mp peer) (isPeer_iff.mp own)
  obtain ⟨rfl, eq⟩ := Connection.mk.inj same
  obtain rfl := Protocol.http.inj eq
  exact ⟨in_, above⟩

/-- Where a connection after a segment comes from: the ring before, or the headers of a segment of its peer. -/
theorem smewsReceive_origin {seg : TcpSegment} {s s' : Server} (step : smewsReceive p seg s = some s')
    {a : Addr} {c : HttpConnection} (mem : ⟨a, .http c⟩ ∈ s'.connections)
    : ⟨a, .http c⟩ ∈ s.connections
      ∨ isPeer seg ⟨a, .http c⟩ ∧ c.tcpState ≠ .listen
        ∧ ∃ d, c.tcpState = (received p seg d).tcpState ∧ c.currentInseqno = (received p seg d).currentInseqno
          ∧ peerOf ⟨a, .http c⟩ = peerOf ⟨a, .http d⟩
          ∧ (⟨a, .http d⟩ ∈ s.connections
            ∨ (seg.srcAddr, seg.srcPort) ∉ peers s.connections ∧ d.tcpState = .listen) := by
  cases smewsReceive_receives step with
  | ignored ring =>
      rw [ring] at mem
      exact .inl mem
  | stored i b d d' service found at_i peer port valid processed opened ring =>
      rw [ring] at mem
      rcases mem_setHttp at_i mem with old | ⟨rfl, rfl⟩
      · exact .inl old
      · obtain ⟨ipAddr, source⟩ := Processed.peer processed
        have same : peerOf ⟨a, .http { d' with generatorService := service }⟩ = peerOf ⟨a, .http d⟩ := by
          simp [peerOf, ipAddr, source]
        exact .inr ⟨isPeer_iff.mpr (same.trans (isPeer_iff.mp peer)), opened, d, processed.frame.tcpState,
          processed.frame.currentInseqno, same, .inl (List.mem_of_getElem? at_i)⟩
  | freed i b d at_i ring =>
      rw [ring, List.mem_append] at mem
      exact .inl (mem.elim List.mem_of_mem_drop List.mem_of_mem_take)
  | added b d valid processed syn ring =>
      have absent := smewsReceive_absent step ring
      rw [ring, List.mem_append, List.mem_singleton] at mem
      rcases mem with old | eq
      · exact .inl old
      · cases eq
        obtain ⟨ipAddr, source⟩ := Processed.peer processed
        have same : peerOf ⟨a, .http c⟩ = peerOf ⟨a, .http (listenConnection p s seg)⟩ := by
          simp [peerOf, ipAddr, source]
        refine .inr ⟨isPeer_iff.mpr (same.trans rfl), by rw [syn]; decide, listenConnection p s seg,
          processed.frame.tcpState, processed.frame.currentInseqno, same, .inr ⟨absent, rfl⟩⟩

theorem Since.enters {first : TcpSegment} {state : TcpState} {h : HandlerRef} {start entered : Server}
    (answers : Awaits state h) (distinct : (peers start.connections).Nodup)
    (before : ∀ a c, ⟨a, .http c⟩ ∈ start.connections → isPeer first ⟨a, .http c⟩ → c.tcpState ≠ state)
    (step : Step p start (.receive first) entered) (in_ : InState first state entered)
    (whole : first.endSeqno ≠ 0xffffffff)
    : Since first state entered := by
  obtain ⟨a, c, mem, peer, after⟩ := in_
  refine .of_one (step_peers step distinct) mem peer after ?_
  rcases smewsReceive_origin step mem with old | ⟨-, -, d, state_eq, current, same, origin⟩
  · exact absurd after (before a c old peer)
  · have other : d.tcpState ≠ state := by
      rcases origin with old | ⟨-, listen⟩
      · exact before a d old (by rw [isPeer_iff] at peer ⊢; rw [← same, peer])
      · rw [listen]
        cases answers <;> decide
    rw [current, received_enters answers other (state_eq.symm.trans after), UInt32.lt_iff_toNat_lt,
      UInt32.toNat_add]
    have bound := first.endSeqno.toNat_lt
    rw [ne_eq, ← UInt32.toNat_inj] at whole
    simp only [UInt32.reduceToNat, Nat.reducePow] at whole bound ⊢
    omega

theorem Since.step {first : TcpSegment} {state : TcpState} {h : HandlerRef} {event : Event} {s s' : Server}
    (answers : Awaits state h) (since : Since first state s) (step : StaysIn p first state s event s')
    : Since first state s' := by
  obtain ⟨distinct, connected, each⟩ := since
  obtain ⟨step, a, c, mem, peer, after⟩ := step
  refine .of_one (step_peers step distinct) mem peer after ?_
  by_cases receive : ∃ seg, event = .receive seg
  swap
  · obtain ⟨d, old, frame⟩ := (step_framed step fun seg eq => receive ⟨seg, eq⟩).kept a c mem
    rw [frame.currentInseqno]
    refine (each a d old ?_).2
    rw [isPeer_iff] at peer ⊢
    simpa [peerOf, frame.ipAddr, frame.port] using peer
  obtain ⟨seg, rfl⟩ := receive
  rcases smewsReceive_origin step mem with old | ⟨own, -, d, state_eq, current, same, old | ⟨absent, -⟩⟩
  · exact (each a c old peer).2
  · obtain ⟨in_, above⟩ := each a d old (by rw [isPeer_iff] at peer ⊢; rw [← same, peer])
    rw [current]
    exact received_stays answers in_ (state_eq.symm.trans after) above
  · rw [isPeer_iff] at own peer
    rw [own] at peer
    rw [Option.some.inj peer] at absent
    exact absurd connected absent

/-- In every run after the `SYN` or `FIN` of a peer in which its connection stays in the state, and whose segment
does not end with the last sequence number, a retransmission leaves the control packet queued, with any sequence
number, when it was not sent since and still has this number, and only then.
-/
theorem control_recovered {first again : TcpSegment} {state : TcpState} {h : HandlerRef}
    {start entered s s' : Server} {events : List Event} (answers : Awaits state h)
    (distinct : (peers start.connections).Nodup)
    (before : ∀ a c, ⟨a, .http c⟩ ∈ start.connections → isPeer first ⟨a, .http c⟩ → c.tcpState ≠ state)
    (entering : Step p start (.receive first) entered) (in_ : InState first state entered)
    (run : Run (StaysIn p first state) entered events s) (retransmits : Retransmits first again)
    (step : Step p s (.receive again) s') (whole : first.endSeqno ≠ 0xffffffff) (number : UInt32)
    : Recovered again h number s' ↔ StillQueued again h number s := by
  have since : Since first state s :=
    run.invariant (Since first state) (Since.step answers) (.enters answers distinct before entering in_ whole)
  have same {k : Connection} : isPeer again k = true ↔ isPeer first k = true := by
    rw [isPeer_iff, isPeer_iff, retransmits.srcAddr, retransmits.srcPort]
  obtain ⟨⟨a, protocol⟩, mem, own⟩ := List.mem_filterMap.mp since.connected
  cases protocol with
  | gpip g => cases own
  | http c =>
      obtain ⟨in_, above⟩ := since.each a c mem (isPeer_iff.mpr own)
      exact recovered_iff answers since.distinct mem (same.mpr (isPeer_iff.mpr own)) in_ retransmits.port
        retransmits.valid (by rw [retransmits.seqno]; exact above) step number

theorem clientSyn_fits : 40 + [(2 : UInt8), 4, 3, 232].length + ([] : List UInt8).length < 65536 := by decide

/-- The `SYN` of a client. -/
def clientSyn : TcpSegment := clientSegment 1000 0 tcpSyn 8192 [2, 4, 3, 232] [] clientSyn_fits

/-- A client sends its `SYN` again before it was answered. -/
theorem control_recovered_unsent
    : ∃ s', Recovered clientSyn .synack 0x42b7a491 s' := by
  have checked : ((next (oneGenerator hello noArgs) bootServer (.receive clientSyn)).bind fun entered =>
      (entered.http 0).bind fun c => (next (oneGenerator hello noArgs) entered (.receive clientSyn)).map
        fun _ => (c.ipAddr, c.port, c.tcpState, c.outputHandler, c.nextOutseqno, c.inflight))
      = some (0xc0a80105, 4000, .synRcvd, some .synack, 0x42b7a491, 0) := by
    decide +kernel
  simp only [Option.bind_eq_some_iff, Option.map_eq_some_iff, Prod.mk.injEq] at checked
  obtain ⟨entered, entering, c, here, s', step, ipAddr, port, state, handler, number,
    inflight⟩ := checked
  obtain ⟨a, at_0⟩ := http_eq here
  have mem := List.mem_of_getElem? at_0
  have peer : isPeer clientSyn ⟨a, .http c⟩ := by
    simp [isPeer, ipAddr, port, clientSyn, clientSegment]
  refine ⟨s', (control_recovered .syn (by decide) (by rintro _ _ ⟨⟩) entering
    ⟨a, c, mem, peer, state⟩ (.nil entered) ⟨rfl, rfl, rfl, rfl, rfl, rfl⟩ step (by decide) 0x42b7a491).mpr
      ⟨a, c, mem, peer, handler, ?_⟩⟩
  rw [number, inflight]
  decide

/-- After the answer to its `SYN` was sent and lost, a client gets no other one. -/
theorem control_not_recovered_sent
    : ∃ s, Run (Step (oneGenerator hello noArgs)) bootServer
        [.receive clientSyn, .send, .receive clientSyn] s
      ∧ InState clientSyn .synRcvd s ∧ ∀ number, ¬ Recovered clientSyn .synack number s := by
  have checked : ((runChecked (next (oneGenerator hello noArgs)) (fun _ _ => True)
      [.receive clientSyn, .send, .receive clientSyn] bootServer).bind fun s =>
        (s.http 0).map fun c => (s.connections.length, c.ipAddr, c.port, c.tcpState, c.outputHandler))
      = some (1, 0xc0a80105, 4000, .synRcvd, none) := by
    decide +kernel
  simp only [Option.bind_eq_some_iff, Option.map_eq_some_iff, Prod.mk.injEq] at checked
  obtain ⟨s, run, c, here, one, ipAddr, port, state, nothing⟩ := checked
  obtain ⟨a, at_0⟩ := http_eq here
  obtain ⟨k, only⟩ := List.length_eq_one_iff.mp one
  rw [only, List.getElem?_cons_zero, Option.some.injEq] at at_0
  subst at_0
  refine ⟨s, (Run.of_checked run).mono And.left, ⟨a, c, ?_, ?_, state⟩, ?_⟩
  · rw [only]
    exact List.mem_singleton_self _
  · simp [isPeer, ipAddr, port, clientSyn, clientSegment]
  · rintro number ⟨b, d, mem, -, queued, -⟩
    rw [only, List.mem_singleton] at mem
    cases mem
    rw [nothing] at queued
    cases queued

end Smews.System
