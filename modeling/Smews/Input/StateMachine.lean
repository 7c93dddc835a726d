import Smews.Input.Received
import Smews.Output.Pending

/-! The TCP state machine of `smews_receive` by its transitions: what the headers of a segment make of the state and of
the handler of a connection, and what is committed of it.
-/

namespace Smews.Input

open Smews.Core Output

variable {p : Program}

--------------------------------------------------
-- Transitions
--------------------------------------------------

/-- A connection before and after the sequence number of a segment was handled. -/
inductive Transition (seg : TcpSegment) (c c' : HttpConnection) : Prop
  | stays (state : c'.tcpState = c.tcpState) (handler : c'.outputHandler = c.outputHandler)
  | opens (listening : c.tcpState = .listen) (syn : seg.has tcpSyn) (state : c'.tcpState = .synRcvd)
    (handler : c'.outputHandler = some .synack)
  | repeats (waiting : c.tcpState = .synRcvd) (inflight : c.inflight ≠ 0) (state : c'.tcpState = .synRcvd)
    (handler : c'.outputHandler = some .synack)
  | settles (waiting : c.tcpState = .synRcvd) (inflight : c.inflight = 0) (state : c'.tcpState = .established)
    (handler : c'.outputHandler = c.outputHandler)
  | finishes (established : c.tcpState = .established) (fin : seg.has tcpFin) (state : c'.tcpState = .lastAck)
    (handler : c'.outputHandler = some .finack)
  | resets (established : c.tcpState = .established) (rst : seg.has tcpRst) (state : c'.tcpState = .listen)
    (handler : c'.outputHandler = c.outputHandler)
  | ends (last : c.tcpState = .lastAck) (state : c'.tcpState = .listen) (handler : c'.outputHandler = c.outputHandler)

theorem tcpTransition_transition (seg : TcpSegment) (c : HttpConnection) : Transition seg c (tcpTransition seg c) := by
  unfold tcpTransition
  cases state : c.tcpState with
  | listen =>
      dsimp only
      split
      · exact .opens state (by assumption) rfl rfl
      · exact .stays rfl rfl
  | synRcvd =>
      dsimp only
      split
      · exact .settles state (by assumption) rfl rfl
      · exact .repeats state (by assumption) rfl rfl
  | established =>
      dsimp only
      split
      · exact .finishes state (by assumption) rfl rfl
      · split
        · exact .resets state (by assumption) rfl rfl
        · exact .stays rfl rfl
  | closing => exact .stays rfl rfl
  | lastAck => exact .ends state rfl rfl

/-- Only the state and the handler matter behind a transition. -/
theorem Transition.congr {seg : TcpSegment} {c c' c'' : HttpConnection} (transition : Transition seg c c')
    (state : c''.tcpState = c'.tcpState) (handler : c''.outputHandler = c'.outputHandler)
    : Transition seg c c'' := by
  cases transition with
  | stays state' handler' => exact .stays (state.trans state') (handler.trans handler')
  | opens listening syn state' handler' => exact .opens listening syn (state.trans state') (handler.trans handler')
  | repeats waiting inflight state' handler' =>
      exact .repeats waiting inflight (state.trans state') (handler.trans handler')
  | settles waiting inflight state' handler' =>
      exact .settles waiting inflight (state.trans state') (handler.trans handler')
  | finishes established fin state' handler' =>
      exact .finishes established fin (state.trans state') (handler.trans handler')
  | resets established rst state' handler' =>
      exact .resets established rst (state.trans state') (handler.trans handler')
  | ends last state' handler' => exact .ends last (state.trans state') (handler.trans handler')

/-- A segment that ends before `current_inseqno` makes no transition. -/
theorem sequence_transition (seg : TcpSegment) (c : HttpConnection) : Transition seg c (sequence seg c).2 := by
  unfold sequence
  dsimp only
  split
  · cases tcpTransition_transition seg { c with currentInseqno := seg.endSeqno } with
    | stays state handler => exact .stays state handler
    | opens listening syn state handler => exact .opens listening syn state handler
    | repeats waiting inflight state handler => exact .repeats waiting inflight state handler
    | settles waiting inflight state handler => exact .settles waiting inflight state handler
    | finishes established fin state handler => exact .finishes established fin state handler
    | resets established rst state handler => exact .resets established rst state handler
    | ends last state handler => exact .ends last state handler
  · exact .stays rfl rfl

--------------------------------------------------
-- The headers of a segment
--------------------------------------------------

/-- The handler of a connection is cleared when its response was acknowledged as a whole. -/
inductive Cleared (p : Program) (c c' : HttpConnection) : Prop
  | kept (same : c' = c)
  | cleared (done : responseDone p c) (same : c' = { c with outputHandler := none })

theorem clearHandler_cleared (c : HttpConnection) : Cleared p c (clearHandler p c).1 := by
  unfold clearHandler
  split
  · rename_i done
    dsimp only
    split
    · exact .kept rfl
    · exact .cleared done rfl
  · exact .kept rfl

/-- What the headers of a segment make of a connection: its acknowledgement number, its sequence number, its window and
its options.
-/
structure Headers (p : Program) (seg : TcpSegment) (c c' : HttpConnection) : Prop where
  stages : ∃ d, Cleared p (acknowledge c seg.ackno).1 d ∧ Transition seg d c'
  nextOutseqno : c'.nextOutseqno = (acknowledge c seg.ackno).1.nextOutseqno
  inflight : c'.inflight = (acknowledge c seg.ackno).1.inflight

theorem received_headers (seg : TcpSegment) (c : HttpConnection) : Headers p seg c (received p seg c) := by
  have cleared := clearHandler_cleared (p := p) (acknowledge c seg.ackno).1
  have negotiated (d : HttpConnection)
      : (negotiate p seg d).tcpState = d.tcpState ∧ (negotiate p seg d).outputHandler = d.outputHandler
        ∧ (negotiate p seg d).nextOutseqno = d.nextOutseqno ∧ (negotiate p seg d).inflight = d.inflight := by
    unfold negotiate
    dsimp only
    split <;> exact ⟨rfl, rfl, rfl, rfl⟩
  have sequenced (d : HttpConnection)
      : (sequence seg d).2.nextOutseqno = d.nextOutseqno ∧ (sequence seg d).2.inflight = d.inflight := by
    unfold sequence tcpTransition
    dsimp only
    repeat' split
    all_goals exact ⟨rfl, rfl⟩
  show Headers p seg c (negotiate p seg (sequence seg (clearHandler p (acknowledge c seg.ackno).1).1).2)
  generalize (clearHandler p (acknowledge c seg.ackno).1).1 = d at cleared
  obtain ⟨state, handler, next, inflight⟩ := negotiated (sequence seg d).2
  have same : d.nextOutseqno = (acknowledge c seg.ackno).1.nextOutseqno
      ∧ d.inflight = (acknowledge c seg.ackno).1.inflight := by
    cases cleared with
    | kept same => exact ⟨by rw [same], by rw [same]⟩
    | cleared done same => exact ⟨by rw [same], by rw [same]⟩
  exact ⟨
    ⟨d, cleared, (sequence_transition seg d).congr state handler⟩,
    next.trans ((sequenced d).1.trans same.1), inflight.trans ((sequenced d).2.trans same.2)
  ⟩

/-- A segment without data is not parsed. -/
theorem Processed.empty {seg : TcpSegment} {c c' : HttpConnection} {heap : Heap}
    (processed : Processed p seg c heap c') (empty : seg.payload = [])
    : c' = received p seg c := by
  cases processed with
  | plain noData result =>
      rw [result, queueAck, if_neg]
      exact fun queued => queued.2.2 empty
  | parsed o data parse result =>
      simp [isParsed, empty] at data

--------------------------------------------------
-- The commit
--------------------------------------------------

/-- What a call of `smews_receive` commits to the ring and to the pending reset. -/
inductive Commits (p : Program) (seg : TcpSegment) (s s' : Server) : Prop
  /-- Another port, a wrong checksum, or a `return` from the parser. -/
  | nothing (ring : s'.connections = s.connections) (rst : s'.rstConnection = s.rstConnection)
  | stored (i : Nat) (a : Addr) (c c' : HttpConnection) (service : Option Addr)
    (found : findConnection p s seg = (some i, c)) (at_i : s.connections[i]? = some ⟨a, .http c⟩)
    (peer : isPeer seg ⟨a, .http c⟩) (port : seg.dstPort % 256 = 80) (valid : seg.checksumValid)
    (processed : Processed p seg c s.heap c') (open_ : c'.tcpState ≠ .listen)
    (ring : s'.connections = (s.setHttp i { c' with generatorService := service }).connections)
    (rst : s'.rstConnection = s.rstConnection)
  | freed (i : Nat) (a : Addr) (c c' : HttpConnection)
    (found : findConnection p s seg = (some i, c)) (at_i : s.connections[i]? = some ⟨a, .http c⟩)
    (peer : isPeer seg ⟨a, .http c⟩) (port : seg.dstPort % 256 = 80) (valid : seg.checksumValid)
    (processed : Processed p seg c s.heap c') (closed : c'.tcpState = .listen)
    (ring : s'.connections = s.connections.drop (i + 1) ++ s.connections.take i)
    (rst : s'.rstConnection = s.rstConnection)
  | added (a : Addr) (c' : HttpConnection) (absent : ∀ k ∈ s.connections, ¬ isPeer seg k)
    (port : seg.dstPort % 256 = 80) (valid : seg.checksumValid)
    (processed : Processed p seg (listenConnection p s seg) s.heap c') (syn : c'.tcpState = .synRcvd)
    (ring : s'.connections = s.connections ++ [⟨a, .http c'⟩]) (rst : s'.rstConnection = s.rstConnection)
  /-- There is no connection, and none is added: a reset is to be sent. -/
  | refused (c' : HttpConnection) (absent : ∀ k ∈ s.connections, ¬ isPeer seg k)
    (port : seg.dstPort % 256 = 80) (valid : seg.checksumValid)
    (processed : Processed p seg (listenConnection p s seg) s.heap c') (ring : s'.connections = s.connections)
    (rst : s'.rstConnection = ⟨c'.ipAddr, c'.currentInseqno, seg.ackno, c'.port⟩)

theorem commitService_rst {ackno : UInt32} {d : Pending} {s s' : Server} {c : HttpConnection}
    (step : commitService p ackno d s = some (c, s'))
    : s'.rstConnection = s.rstConnection := by
  unfold commitService at step
  split at step
  · split at step
    · dsimp only at step
      split at step
      · cases step
        rfl
      · simp only [Option.bind_eq_bind, Option.bind_eq_some_iff, Option.some.injEq, Prod.mk.injEq] at step
        obtain ⟨heap, -, rfl, rfl⟩ := step
        rfl
    · cases step
      rfl
  · cases step
    rfl

theorem addConnection_rst (s : Server) (protocol : Protocol)
    : (s.addConnection p protocol).2.rstConnection = s.rstConnection := by
  unfold Server.addConnection
  split <;> rfl

theorem smewsReceive_commits {seg : TcpSegment} {s s' : Server} (step : smewsReceive p seg s = some s')
    : Commits p seg s s' := by
  unfold smewsReceive at step
  split at step
  swap
  · cases step
    exact .nothing rfl rfl
  rename_i port
  rw [Option.bind_eq_bind, Option.bind_eq_some_iff] at step
  obtain ⟨outcome, processing, rest⟩ := step
  cases outcome with
  | inr heap =>
      cases rest
      exact .nothing rfl rfl
  | inl d =>
      have processed := process_processed processing
      dsimp only at rest
      split at rest
      swap
      · cases rest
        exact .nothing rfl rfl
      rename_i valid
      unfold commit at rest
      rw [Option.bind_eq_bind, Option.bind_eq_some_iff] at rest
      obtain ⟨⟨c', t⟩, service, rest⟩ := rest
      obtain ⟨ring, same⟩ := commitService_spec service
      have rst := commitService_rst service
      dsimp only at ring rst rest
      rcases findConnection_cases (p := p) s seg with ⟨i, a, c, found, at_i, peer⟩ | ⟨found, absent⟩ <;>
        rw [found] at processed rest <;> dsimp only at processed rest
      · have state : c'.tcpState = d.connection.tcpState := by rw [same]
        split at rest
        · rename_i closed
          exact .freed i a c d.connection found at_i peer port valid processed (state ▸ closed)
            (by rw [freeConnection_connections rest, ring]) ((freeConnection_rst rest).trans rst)
        · rename_i open_
          cases rest
          refine .stored i a c d.connection c'.generatorService found at_i peer port valid processed (state ▸ open_) ?_
            rst
          rw [← same]
          simp only [Server.setHttp, ring]
      · have none : d.connection.generatorService = none := by
          rw [processed.frame.generatorService, (received_frame seg _).generatorService]
          rfl
        rw [commitService_none none, Option.some.injEq, Prod.mk.injEq] at service
        obtain ⟨rfl, rfl⟩ := service
        have added := addConnection_rst (p := p) { s with heap := d.heap } (.http d.connection)
        split at rest
        · rename_i syn
          rcases addConnection_cases (p := p) { s with heap := d.heap } (.http d.connection) with
            ⟨failed, kept⟩ | ⟨a, given, longer⟩
          · split at rest <;> rename_i eq <;> rw [eq] at failed kept
            · cases rest
              exact .refused d.connection absent port valid processed kept rfl
            · cases failed
          · split at rest <;> rename_i eq <;> rw [eq] at given longer added
            · cases given
            · cases rest
              exact .added a d.connection absent port valid processed syn longer added
        · cases rest
          exact .refused d.connection absent port valid processed rfl rfl

end Smews.Input
