import Smews.Input.Receive
import Smews.Output.Served

/-! What one call of `smews_receive` does to the ring: to the connection of the sender.
-/

namespace Smews.Input

open Smews.Core Output

variable {p : Program}

--------------------------------------------------
-- Up to the checksum
--------------------------------------------------

/-- `tmp_connection` when the parser is about to run. -/
def received (p : Program) (seg : TcpSegment) (c : HttpConnection) : HttpConnection :=
  (beforeParsing p seg c).2.1

/-- The members of a connection that the headers of a segment leave alone. -/
structure HeaderFrame (c c' : HttpConnection) : Prop where
  ipAddr : c'.ipAddr = c.ipAddr
  port : c'.port = c.port
  request : c'.request = c.request
  generatorService : c'.generatorService = c.generatorService
  finalOutseqno : c'.finalOutseqno = c.finalOutseqno
  cometSendAck : c'.cometSendAck = c.cometSendAck
  cometPassive : c'.cometPassive = c.cometPassive
  cometStreaming : c'.cometStreaming = c.cometStreaming

theorem HeaderFrame.refl (c : HttpConnection) : HeaderFrame c c :=
  ⟨rfl, rfl, rfl, rfl, rfl, rfl, rfl, rfl⟩

theorem HeaderFrame.trans {c c' c'' : HttpConnection} (h : HeaderFrame c c')
    (h' : HeaderFrame c' c'')
    : HeaderFrame c c'' :=
  ⟨
    h'.ipAddr.trans h.ipAddr, h'.port.trans h.port, h'.request.trans h.request,
    h'.generatorService.trans h.generatorService, h'.finalOutseqno.trans h.finalOutseqno,
    h'.cometSendAck.trans h.cometSendAck, h'.cometPassive.trans h.cometPassive,
    h'.cometStreaming.trans h.cometStreaming
  ⟩

theorem acknowledge_frame (c : HttpConnection) (ackno : UInt32)
    : HeaderFrame c (acknowledge c ackno).1 := by
  unfold acknowledge
  dsimp only
  split <;> split <;> exact ⟨rfl, rfl, rfl, rfl, rfl, rfl, rfl, rfl⟩

theorem clearHandler_frame (c : HttpConnection) : HeaderFrame c (clearHandler p c).1 := by
  unfold clearHandler
  split
  · dsimp only
    split <;> exact ⟨rfl, rfl, rfl, rfl, rfl, rfl, rfl, rfl⟩
  · exact .refl c

theorem tcpTransition_frame (seg : TcpSegment) (c : HttpConnection)
    : HeaderFrame c (tcpTransition seg c) := by
  unfold tcpTransition
  split <;> repeat' split
  all_goals exact ⟨rfl, rfl, rfl, rfl, rfl, rfl, rfl, rfl⟩

theorem sequence_frame (seg : TcpSegment) (c : HttpConnection)
    : HeaderFrame c (sequence seg c).2 := by
  unfold sequence
  dsimp only
  split
  · refine HeaderFrame.trans ?_ (tcpTransition_frame seg { c with currentInseqno := seg.endSeqno })
    exact ⟨rfl, rfl, rfl, rfl, rfl, rfl, rfl, rfl⟩
  · exact .refl c

theorem negotiate_frame (seg : TcpSegment) (c : HttpConnection)
    : HeaderFrame c (negotiate p seg c) := by
  unfold negotiate
  dsimp only
  split <;> exact ⟨rfl, rfl, rfl, rfl, rfl, rfl, rfl, rfl⟩

theorem received_frame (seg : TcpSegment) (c : HttpConnection)
    : HeaderFrame c (received p seg c) :=
  (acknowledge_frame c seg.ackno).trans <| (clearHandler_frame _).trans <|
    (sequence_frame seg _).trans (negotiate_frame seg _)

theorem acknowledge_nextOutseqno (c : HttpConnection) (ackno : UInt32)
    : (acknowledge c ackno).1.nextOutseqno
      = if c.nextOutseqno - c.inflight.toUInt32 = ackno then ackno else c.nextOutseqno := by
  unfold acknowledge
  dsimp only
  split <;> split <;> rfl

/-- Besides control packets, the headers of a segment bring no handler to a connection. -/
theorem received_outputHandler {seg : TcpSegment} {c : HttpConnection} {h : HandlerRef}
    (handler : (received p seg c).outputHandler = some h) (notControl : ¬ p.isControl h)
    : c.outputHandler = some h
      ∧ (received p seg c).nextOutseqno = (acknowledge c seg.ackno).1.nextOutseqno := by
  have acked : (acknowledge c seg.ackno).1.outputHandler = c.outputHandler := by
    unfold acknowledge
    dsimp only
    split <;> split <;> rfl
  have negotiated (d : HttpConnection) : (negotiate p seg d).outputHandler = d.outputHandler
      ∧ (negotiate p seg d).nextOutseqno = d.nextOutseqno := by
    unfold negotiate
    dsimp only
    split <;> exact ⟨rfl, rfl⟩
  have transition (d : HttpConnection) (some_ : (tcpTransition seg d).outputHandler = some h)
      : d.outputHandler = some h := by
    unfold tcpTransition at some_
    repeat' split at some_
    all_goals first | exact some_ | (cases some_; exact absurd rfl notControl)
  have transitionNext (d : HttpConnection) : (tcpTransition seg d).nextOutseqno = d.nextOutseqno := by
    unfold tcpTransition
    repeat' split
    all_goals rfl
  have sequenced (d : HttpConnection) (some_ : (sequence seg d).2.outputHandler = some h)
      : d.outputHandler = some h ∧ (sequence seg d).2.nextOutseqno = d.nextOutseqno := by
    unfold sequence at some_ ⊢
    dsimp only at some_ ⊢
    split at some_ <;> rename_i order
    · rw [if_pos order]
      exact ⟨transition { d with currentInseqno := seg.endSeqno } some_, transitionNext _⟩
    · rw [if_neg order]
      exact ⟨some_, rfl⟩
  have cleared (d : HttpConnection) (some_ : (clearHandler p d).1.outputHandler = some h)
      : d.outputHandler = some h ∧ (clearHandler p d).1.nextOutseqno = d.nextOutseqno := by
    unfold clearHandler at some_ ⊢
    by_cases done : responseDone p d
    · rw [if_pos done] at some_ ⊢
      dsimp only at some_ ⊢
      split_ifs at some_ ⊢
      exact ⟨some_, rfl⟩
    · rw [if_neg done] at some_ ⊢
      exact ⟨some_, rfl⟩
  change (negotiate p seg (sequence seg (clearHandler p (acknowledge c seg.ackno).1).1).2).outputHandler
    = some h at handler
  show _ ∧ (negotiate p seg
    (sequence seg (clearHandler p (acknowledge c seg.ackno).1).1).2).nextOutseqno = _
  rw [(negotiated _).1] at handler
  obtain ⟨handler, next⟩ := sequenced _ handler
  obtain ⟨handler, next'⟩ := cleared _ handler
  exact ⟨acked ▸ handler, by rw [(negotiated _).2, next, next']⟩

/-- What a segment makes of the connection: the parser ran, or it did not. -/
inductive Processed (p : Program) (seg : TcpSegment) (c : HttpConnection) (heap : Heap)
    (c' : HttpConnection) : Prop
  | parsed (o : Outcome)
    (data : isParsed seg (beforeParsing p seg c).1 (received p seg c))
    (parse : parseSegment p (received p seg c).request heap (received p seg c).outputHandler
      seg.payload = some (.parsed o))
    (result : c' = queueAck seg (afterParsing p seg.ackno (received p seg c) o))
  | plain (noData : ¬ isParsed seg (beforeParsing p seg c).1 (received p seg c))
    (result : c' = queueAck seg (received p seg c))

theorem process_processed {seg : TcpSegment} {c : HttpConnection} {heap : Heap} {d : Pending}
    (step : process p seg c heap = some (.inl d))
    : Processed p seg c heap d.connection := by
  unfold process at step
  split at step
  rename_i newTcpData c1 cleanService freeHandler before
  have new : (beforeParsing p seg c).1 = newTcpData := by rw [before]
  have result : received p seg c = c1 := by rw [received, before]
  split at step
  · rename_i data
    rw [Option.bind_eq_bind, Option.bind_eq_some_iff] at step
    obtain ⟨segmented, parse, rest⟩ := step
    cases segmented with
    | returned heap => simp at rest
    | parsed o =>
        simp only [Option.some.injEq, Sum.inl.injEq] at rest
        subst rest
        refine .parsed o ?_ ?_ ?_
        · rw [new, result]
          exact data
        · rw [result]
          exact parse
        · rw [result]
  · rename_i noData
    simp only [Option.some.injEq, Sum.inl.injEq] at step
    subst step
    refine .plain ?_ ?_
    · rw [new, result]
      exact noData
    · rw [result]

/-- The members of a connection that the parser leaves alone. -/
structure ParserFrame (c c' : HttpConnection) : Prop where
  ipAddr : c'.ipAddr = c.ipAddr
  port : c'.port = c.port
  tcpMss : c'.tcpMss = c.tcpMss
  tcpState : c'.tcpState = c.tcpState
  currentInseqno : c'.currentInseqno = c.currentInseqno
  cwnd : c'.cwnd = c.cwnd
  inflight : c'.inflight = c.inflight
  generatorService : c'.generatorService = c.generatorService

theorem Processed.frame {seg : TcpSegment} {c c' : HttpConnection} {heap : Heap}
    (processed : Processed p seg c heap c')
    : ParserFrame (received p seg c) c' := by
  have ack (d : HttpConnection) : ParserFrame d (queueAck seg d) := by
    unfold queueAck
    split <;> exact ⟨rfl, rfl, rfl, rfl, rfl, rfl, rfl, rfl⟩
  cases processed with
  | plain noData result =>
      rw [result]
      exact ack _
  | parsed o data parse result =>
      rw [result]
      unfold queueAck afterParsing beginResponse
      dsimp only
      repeat' split
      all_goals exact ⟨rfl, rfl, rfl, rfl, rfl, rfl, rfl, rfl⟩

/-- Where the handler of a connection comes from, unless it is a control packet: it was selected
for the response that begins at the acknowledgement number, or it was there before.
-/
theorem Processed.outputHandler {seg : TcpSegment} {c c' : HttpConnection} {heap : Heap}
    {h : HandlerRef} (processed : Processed p seg c heap c') (handler : c'.outputHandler = some h)
    (notControl : ¬ p.isControl h)
    : (∃ d, c' = beginResponse p seg.ackno h d)
      ∨ (c.outputHandler = some h
        ∧ c'.nextOutseqno = (acknowledge c seg.ackno).1.nextOutseqno
        ∧ c'.finalOutseqno = c.finalOutseqno ∧ c'.cometSendAck = c.cometSendAck) := by
  have frame := received_frame (p := p) seg c
  have queued (d : HttpConnection) (some_ : (queueAck seg d).outputHandler = some h)
      : queueAck seg d = d := by
    unfold queueAck at some_ ⊢
    split at some_ <;> rename_i queue
    · cases some_
      exact absurd rfl notControl
    · rw [if_neg queue]
  have kept (d : HttpConnection) (from_ : d.outputHandler = some h
      → (received p seg c).outputHandler = some h ∧ d.nextOutseqno = (received p seg c).nextOutseqno
        ∧ d.finalOutseqno = (received p seg c).finalOutseqno
        ∧ d.cometSendAck = (received p seg c).cometSendAck)
      (some_ : d.outputHandler = some h)
      : c.outputHandler = some h ∧ d.nextOutseqno = (acknowledge c seg.ackno).1.nextOutseqno
        ∧ d.finalOutseqno = c.finalOutseqno ∧ d.cometSendAck = c.cometSendAck := by
    obtain ⟨before, next, final, noAck⟩ := from_ some_
    obtain ⟨old, next'⟩ := received_outputHandler before notControl
    exact ⟨old, next.trans next', final.trans frame.finalOutseqno, noAck.trans frame.cometSendAck⟩
  cases processed with
  | plain noData result =>
      subst result
      have same := queued _ handler
      rw [same] at handler ⊢
      exact .inr (kept _ (fun some_ => ⟨some_, rfl, rfl, rfl⟩) handler)
  | parsed o data parse result =>
      subst result
      have same := queued _ handler
      rw [same] at handler ⊢
      unfold afterParsing at handler ⊢
      dsimp only at handler ⊢
      cases selected : o.selected with
      | some h' =>
          simp only [selected] at handler ⊢
          have own : h' = h := Option.some.inj handler
          subst own
          exact .inl ⟨_, rfl⟩
      | none =>
          simp only [selected] at handler ⊢
          refine .inr (kept _ (fun some_ => ?_) handler)
          split at some_
          · cases some_
          · rename_i state
            rw [if_neg state]
            exact ⟨some_, rfl, rfl, rfl⟩

/-- Data is parsed and acknowledged on established connections only. -/
theorem Processed.unestablished {seg : TcpSegment} {c c' : HttpConnection} {heap : Heap}
    (processed : Processed p seg c heap c') (state : (received p seg c).tcpState ≠ .established)
    : c' = received p seg c := by
  cases processed with
  | plain noData result =>
      rw [result, queueAck, if_neg]
      exact fun queued => state queued.2.1
  | parsed o data parse result =>
      simp only [isParsed, Bool.and_eq_true, decide_eq_true_eq] at data
      exact absurd data.1.2 state

--------------------------------------------------
-- One call
--------------------------------------------------

/-- What a call of `smews_receive` does to the ring. -/
inductive Receives (p : Program) (seg : TcpSegment) (s s' : Server) : Prop
  /-- The segment is dropped, or answered with a reset. -/
  | ignored (ring : s'.connections = s.connections)
  /-- The connection of the sender is stored back, maybe without its service. -/
  | stored (i : Nat) (a : Addr) (c c' : HttpConnection) (service : Option Addr)
    (found : findConnection p s seg = (some i, c)) (at_i : s.connections[i]? = some ⟨a, .http c⟩)
    (peer : isPeer seg ⟨a, .http c⟩) (port : seg.dstPort % 256 = 80)
    (valid : seg.checksumValid) (processed : Processed p seg c s.heap c')
    (open_ : c'.tcpState ≠ .listen)
    (ring : s'.connections = (s.setHttp i { c' with generatorService := service }).connections)
  /-- The connection of the sender is freed. -/
  | freed (i : Nat) (a : Addr) (c : HttpConnection) (at_i : s.connections[i]? = some ⟨a, .http c⟩)
    (ring : s'.connections = s.connections.drop (i + 1) ++ s.connections.take i)
  /-- A connection is added for the sender. -/
  | added (a : Addr) (c' : HttpConnection)
    (valid : seg.checksumValid) (processed : Processed p seg (listenConnection p s seg) s.heap c')
    (syn : c'.tcpState = .synRcvd)
    (ring : s'.connections = s.connections ++ [⟨a, .http c'⟩])

/-- The connection found for a segment is a member of the ring, or a new one. -/
theorem findConnection_cases (s : Server) (seg : TcpSegment)
    : (∃ i a c, findConnection p s seg = (some i, c) ∧ s.connections[i]? = some ⟨a, .http c⟩
        ∧ isPeer seg ⟨a, .http c⟩)
      ∨ (findConnection p s seg = (none, listenConnection p s seg)
        ∧ ∀ k ∈ s.connections, ¬ isPeer seg k) := by
  unfold findConnection
  cases found : s.connections.findIdx? (isPeer seg) with
  | none =>
      refine .inr ⟨rfl, fun k mem => ?_⟩
      simp [List.findIdx?_eq_none_iff.mp found k mem]
  | some i =>
      obtain ⟨lt, peer, -⟩ := List.findIdx?_eq_some_iff_getElem.mp found
      cases connection : s.connections[i] with
      | mk a protocol =>
      have at_i : s.connections[i]? = some ⟨a, protocol⟩ := by
        rw [List.getElem?_eq_getElem lt, connection]
      rw [connection] at peer
      cases protocol with
      | gpip g => simp [isPeer] at peer
      | http c => exact .inl ⟨i, a, c, by simp [at_i], at_i, peer⟩

/-- The deferred work on a service keeps the ring, and at most takes the service away. -/
theorem commitService_spec {ackno : UInt32} {d : Pending} {s s' : Server} {c : HttpConnection}
    (step : commitService p ackno d s = some (c, s'))
    : s'.connections = s.connections
      ∧ c = { d.connection with generatorService := c.generatorService } := by
  unfold commitService at step
  split at step
  · split at step
    · dsimp only at step
      split at step
      · simp only [Option.some.injEq, Prod.mk.injEq] at step
        obtain ⟨rfl, rfl⟩ := step
        exact ⟨rfl, rfl⟩
      · simp only [Option.bind_eq_bind, Option.bind_eq_some_iff, Option.some.injEq,
          Prod.mk.injEq] at step
        obtain ⟨heap, -, rfl, rfl⟩ := step
        exact ⟨rfl, rfl⟩
    · simp only [Option.some.injEq, Prod.mk.injEq] at step
      obtain ⟨rfl, rfl⟩ := step
      exact ⟨rfl, rfl⟩
  · simp only [Option.some.injEq, Prod.mk.injEq] at step
    obtain ⟨rfl, rfl⟩ := step
    exact ⟨rfl, rfl⟩

/-- Without a service there is no deferred work. -/
theorem commitService_none {ackno : UInt32} {d : Pending} {s : Server}
    (none : d.connection.generatorService = none)
    : commitService p ackno d s = some (d.connection, s) := by
  unfold commitService
  rw [none]

theorem addConnection_cases (s : Server) (protocol : Protocol)
    : ((s.addConnection p protocol).1 = none
        ∧ (s.addConnection p protocol).2.connections = s.connections)
      ∨ ∃ a, (s.addConnection p protocol).1 = some a
        ∧ (s.addConnection p protocol).2.connections = s.connections ++ [⟨a, protocol⟩] := by
  unfold Server.addConnection
  split
  · exact .inl ⟨rfl, rfl⟩
  · exact .inr ⟨_, rfl, rfl⟩

/-- `smews_receive` ends early only where the parser returns. -/
theorem process_returned {seg : TcpSegment} {c : HttpConnection} {heap heap' : Heap}
    (processing : process p seg c heap = some (.inr heap'))
    : isParsed seg (beforeParsing p seg c).1 (received p seg c)
      ∧ parseSegment p c.request heap (received p seg c).outputHandler seg.payload = some (.returned heap') := by
  rw [← (received_frame (p := p) seg c).request]
  unfold process at processing
  split at processing
  rename_i new d clean free before
  have same : received p seg c = d := by rw [received, before]
  rw [same, before]
  split at processing
  · next parsed =>
      rw [Option.bind_eq_bind, Option.bind_eq_some_iff] at processing
      obtain ⟨segmented, parse, rest⟩ := processing
      refine ⟨parsed, ?_⟩
      rw [parse]
      cases segmented with
      | returned heap' =>
          simp only [Option.some.injEq, Sum.inr.injEq] at rest
          rw [rest]
      | parsed o => simp at rest
  · cases processing

/-- What a valid segment does to the connection that is found for it. -/
inductive ReceivesOwn (p : Program) (seg : TcpSegment) (i : Nat) (c : HttpConnection) (s s' : Server) : Prop
  | returned (heap : Heap) (early : process p seg c s.heap = some (.inr heap)) (ring : s'.connections = s.connections)
  | stored (c' : HttpConnection) (service : Option Addr) (processed : Processed p seg c s.heap c')
    (open_ : c'.tcpState ≠ .listen)
    (ring : s'.connections = (s.setHttp i { c' with generatorService := service }).connections)
  | freed (ring : s'.connections = s.connections.drop (i + 1) ++ s.connections.take i)

theorem smewsReceive_own {seg : TcpSegment} {s s' : Server} {i : Nat} {c : HttpConnection}
    (found : findConnection p s seg = (some i, c)) (port : seg.dstPort % 256 = 80) (valid : seg.checksumValid = true)
    (step : smewsReceive p seg s = some s')
    : ReceivesOwn p seg i c s s' := by
  unfold smewsReceive at step
  rw [if_pos port, Option.bind_eq_bind, Option.bind_eq_some_iff] at step
  obtain ⟨outcome, processing, rest⟩ := step
  rw [found] at processing rest
  cases outcome with
  | inr heap =>
      simp only [Option.some.injEq] at rest
      subst rest
      exact .returned heap processing rfl
  | inl d =>
      have processed := process_processed processing
      dsimp only at rest
      rw [if_pos valid] at rest
      unfold commit at rest
      rw [Option.bind_eq_bind, Option.bind_eq_some_iff] at rest
      obtain ⟨⟨c', t⟩, service, rest⟩ := rest
      obtain ⟨ring, same⟩ := commitService_spec service
      dsimp only at rest
      split_ifs at rest with listen
      · exact .freed (by rw [freeConnection_connections rest, ring])
      · simp only [Option.some.injEq] at rest
        subst rest
        refine .stored d.connection c'.generatorService processed ?_ ?_
        · rw [same] at listen
          exact listen
        · rw [← same]
          simp only [Server.setHttp, ring]

theorem smewsReceive_receives {seg : TcpSegment} {s s' : Server}
    (step : smewsReceive p seg s = some s')
    : Receives p seg s s' := by
  by_cases port : seg.dstPort % 256 = 80
  swap
  · rw [smewsReceive, if_neg port, Option.some.injEq] at step
    exact .ignored (by rw [step])
  by_cases valid : seg.checksumValid
  swap
  · rw [smewsReceive, if_pos port, Option.bind_eq_bind, Option.bind_eq_some_iff] at step
    obtain ⟨outcome, -, rest⟩ := step
    refine .ignored ?_
    cases outcome with
    | inr heap =>
        cases rest
        rfl
    | inl d =>
        dsimp only at rest
        rw [if_neg valid, Option.some.injEq] at rest
        rw [← rest]
  rcases findConnection_cases (p := p) s seg with ⟨i, a, c, found, at_i, peer⟩ | ⟨found, -⟩
  · cases smewsReceive_own found port valid step with
    | returned heap early ring => exact .ignored ring
    | stored c' service processed open_ ring =>
        exact .stored i a c c' service found at_i peer port valid processed open_ ring
    | freed ring => exact .freed i a c at_i ring
  rw [smewsReceive, if_pos port, Option.bind_eq_bind, Option.bind_eq_some_iff] at step
  obtain ⟨outcome, processing, rest⟩ := step
  cases outcome with
  | inr heap =>
      simp only [Option.some.injEq] at rest
      subst rest
      exact .ignored rfl
  | inl d =>
      have processed := process_processed processing
      dsimp only at rest
      rw [if_pos valid] at rest
      unfold commit at rest
      rw [Option.bind_eq_bind, Option.bind_eq_some_iff] at rest
      obtain ⟨⟨c', t⟩, service, rest⟩ := rest
      simp only [found] at rest processed
      have none : d.connection.generatorService = none := by
        rw [processed.frame.generatorService, (received_frame seg _).generatorService]
        rfl
      rw [commitService_none none, Option.some.injEq, Prod.mk.injEq] at service
      obtain ⟨rfl, rfl⟩ := service
      split_ifs at rest with syn
      · rcases addConnection_cases (p := p) { s with heap := d.heap } (.http d.connection) with
          ⟨failed, kept⟩ | ⟨a, added, ring⟩
        · split at rest <;> rename_i eq <;> simp only [eq] at failed kept
          · simp only [Option.some.injEq] at rest
            subst rest
            exact .ignored kept
          · cases failed
        · split at rest <;> rename_i eq <;> simp only [eq] at added ring
          · cases added
          · simp only [Option.some.injEq] at rest
            subst rest
            exact .added a d.connection valid processed syn ring
      · simp only [Option.some.injEq] at rest
        subst rest
        exact .ignored rfl

end Smews.Input
