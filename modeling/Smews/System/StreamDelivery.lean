import Smews.Input.DeviceParsing
import Smews.Library.RoundRobin
import Smews.System.ControlRecovery

/-! The bytes of a client's stream that reach the parser, whatever segments carry them and in whatever order they
arrive.
-/

namespace Smews.System

open Smews.Core Input Output Runs

variable {p : Program}

--------------------------------------------------
-- Streams
--------------------------------------------------

/-- Bytes with their sequence numbers. -/
def numbered (first : UInt32) (bytes : List UInt8) : List (UInt32 × UInt8) :=
  bytes.mapIdx fun i b => (first + UInt32.ofNat i, b)

/-- A segment carries the bytes of a stream from a place on, and a `FIN` behind its last byte. -/
structure IsAt (first : UInt32) (stream : List UInt8) (k : Nat) (seg : TcpSegment) : Prop where
  seqno : seg.seqno = first + UInt32.ofNat k
  payload : seg.payload <+: stream.drop k
  fin : seg.has tcpFin → k + seg.payload.length = stream.length

/-- A segment of a stream, without an error on its way. Behind a `FIN` there may be one more place. -/
structure OfStream (first : UInt32) (stream : List UInt8) (seg : TcpSegment) : Prop where
  port : seg.dstPort % 256 = 80
  valid : seg.checksumValid = true
  noSyn : ¬ seg.has tcpSyn
  place : ∃ k ≤ stream.length + 1, IsAt first stream k seg

--------------------------------------------------
-- What is fed
--------------------------------------------------

/-- The bytes that the loop over a segment does not read. -/
def unfed (p : Program) (r : Request) (heap : Heap) (handler : Option HandlerRef) (bytes : List UInt8) : List UInt8 :=
  match startSegment p r heap handler with
  | none => bytes
  | some s =>
      match parseLoop p (3 * bytes.length + 3) s bytes with
      | some (.done _ rest) => rest
      | some (.quit _) => Device.abandoned p (3 * bytes.length + 3) s bytes
      | none => bytes

/-- The bytes that `smews_receive` feeds to the parser, with their sequence numbers. -/
def fedBytes (p : Program) (s : Server) (seg : TcpSegment) : List (UInt32 × UInt8) :=
  let c := (findConnection p s seg).2
  let ready := received p seg c
  if seg.dstPort % 256 = 80 ∧ isParsed seg (beforeParsing p seg c).1 ready then
    let left := unfed p ready.request s.heap ready.outputHandler seg.payload
    numbered seg.seqno (seg.payload.take (seg.payload.length - left.length))
  else []

/-- What an event feeds to the parser of a peer. -/
def feeds (p : Program) (peer : UInt32 × UInt16) (s : Server) : Event → List (UInt32 × UInt8)
  | .receive seg => if (seg.srcAddr, seg.srcPort) = peer then fedBytes p s seg else []
  | _ => []

/-- A server, and the bytes of a peer that were fed so far. -/
structure Feeding where
  server : Server
  fed : List (UInt32 × UInt8)

/-- A step in which the peer sends segments of its stream. -/
def ClientStep (p : Program) (peer : UInt32 × UInt16) (first : UInt32) (stream : List UInt8) (f : Feeding) (event : Event)
    (f' : Feeding)
    : Prop :=
  Step p f.server event f'.server ∧ f'.fed = f.fed ++ feeds p peer f.server event
    ∧ ∀ seg, event = .receive seg → (seg.srcAddr, seg.srcPort) = peer → OfStream first stream seg

/-- A connection acknowledges the first `n` bytes of a stream, or also the `FIN` behind the whole of it. -/
def Acknowledges (first : UInt32) (stream : List UInt8) (n : Nat) (c : HttpConnection) : Prop :=
  c.currentInseqno = first + UInt32.ofNat n ∨ n = stream.length ∧ c.currentInseqno = first + UInt32.ofNat n + 1

/-- A part of the stream was fed, each byte once and in order, and the connection of the peer acknowledges no other
bytes.
-/
def StreamDelivered (peer : UInt32 × UInt16) (first : UInt32) (stream : List UInt8) (f : Feeding) : Prop :=
  ∃ n ≤ stream.length, f.fed = numbered first (stream.take n)
    ∧ ∀ a c, ⟨a, .http c⟩ ∈ f.server.connections → (c.ipAddr, c.port) = peer
      → ∃ m ≤ n, Acknowledges first stream m c

--------------------------------------------------
-- The condition
--------------------------------------------------

/-- The loop ended behind the last byte. -/
def readWhole : Parsed → Bool
  | .done _ rest => rest.isEmpty
  | .quit _ => false

/-- No request ends or fails before the last byte of a segment. -/
def readsAll (p : Program) (r : Request) (heap : Heap) (handler : Option HandlerRef) (bytes : List UInt8) : Bool :=
  ((startSegment p r heap handler).bind fun s => parseLoop p (3 * bytes.length + 3) s bytes).any readWhole

/-- A segment for an established connection, when `n` bytes of the stream were fed: a `FIN` that is taken stands behind
the bytes that were fed, new data begins with the next byte and is read to its end, and old data meets a handler.
-/
def InOrder (p : Program) (first : UInt32) (stream : List UInt8) (n : Nat) (heap : Heap) (seg : TcpSegment)
    (c : HttpConnection)
    : Prop :=
  c.tcpState = .established →
    if c.currentInseqno ≤ seg.endSeqno ∧ seg.has tcpFin then n = stream.length
    else if c.currentInseqno < seg.endSeqno then
      seg.has tcpRst
        ∨ IsAt first stream n seg
          ∧ (seg.payload ≠ [] → readsAll p c.request heap (received p seg c).outputHandler seg.payload)
        ∨ seg.payload = [] ∧ IsAt first stream (n + 1) seg ∧ n = stream.length
    else
      c.currentInseqno ≤ seg.endSeqno ∧ seg.has tcpRst ∨ seg.payload = [] ∨ (received p seg c).outputHandler.isSome

/-- A step in which the segments of the peer are in order. -/
def InOrderStep (p : Program) (peer : UInt32 × UInt16) (first : UInt32) (stream : List UInt8) (f : Feeding) (event : Event)
    (f' : Feeding)
    : Prop :=
  ClientStep p peer first stream f event f'
    ∧ ∀ seg, event = .receive seg → (seg.srcAddr, seg.srcPort) = peer →
      ∀ a c, ⟨a, .http c⟩ ∈ f.server.connections → isPeer seg ⟨a, .http c⟩
        → InOrder p first stream f.fed.length f.server.heap seg c

--------------------------------------------------
-- Numbered bytes
--------------------------------------------------

theorem numbered_append (first : UInt32) (xs ys : List UInt8)
    : numbered first (xs ++ ys) = numbered first xs ++ numbered (first + UInt32.ofNat xs.length) ys := by
  rw [numbered, List.mapIdx_append]
  refine congrArg (numbered first xs ++ ·) (congrArg (List.mapIdx · ys) ?_)
  funext i b
  rw [Nat.add_comm, UInt32.ofNat_add, UInt32.add_assoc]

@[simp] theorem numbered_nil (first : UInt32) : numbered first [] = [] := rfl

@[simp] theorem length_numbered (first : UInt32) (bytes : List UInt8) : (numbered first bytes).length = bytes.length := by
  rw [numbered, List.length_mapIdx]

/-- The next bytes of a stream behind a part of it. -/
theorem IsAt.numbered {first : UInt32} {stream : List UInt8} {n : Nat} {seg : TcpSegment} (at_ : IsAt first stream n seg)
    (inside : n ≤ stream.length)
    : n + seg.payload.length ≤ stream.length
      ∧ System.numbered first (stream.take n) ++ System.numbered seg.seqno seg.payload
        = System.numbered first (stream.take (n + seg.payload.length)) := by
  obtain ⟨rest, split⟩ := at_.payload
  have length : (stream.take n).length = n := by
    rw [List.length_take]
    omega
  have fits := congrArg List.length split
  rw [List.length_append, List.length_drop] at fits
  have taken : stream.take (n + seg.payload.length) = stream.take n ++ seg.payload := by
    rw [List.take_add, ← split, List.take_left]
  refine ⟨by omega, ?_⟩
  rw [taken, numbered_append, length, at_.seqno]

--------------------------------------------------
-- The headers
--------------------------------------------------

variable {seg : TcpSegment} {c : HttpConnection}

theorem beforeParsing_new : (beforeParsing p seg c).1 = decide (c.currentInseqno < seg.endSeqno) := by
  have same : (clearHandler p (acknowledge c seg.ackno).1).1.currentInseqno = c.currentInseqno := by
    unfold clearHandler acknowledge
    dsimp only
    repeat' split
    all_goals rfl
  show (Input.sequence seg (clearHandler p (acknowledge c seg.ackno).1).1).1 = _
  unfold Input.sequence
  dsimp only
  split <;> rw [same]

/-- Old segments change neither the state nor `current_inseqno`. -/
theorem received_unsequenced (old : seg.endSeqno < c.currentInseqno)
    : (received p seg c).tcpState = c.tcpState ∧ (received p seg c).currentInseqno = c.currentInseqno := by
  obtain ⟨tcpState, currentInseqno, -, -⟩ := received_old (p := p) old
  exact ⟨tcpState, currentInseqno⟩

/-- Other segments reach the state machine. -/
theorem received_sequenced (order : c.currentInseqno ≤ seg.endSeqno)
    : ∃ d : HttpConnection, d.tcpState = c.tcpState ∧ d.currentInseqno = seg.endSeqno
      ∧ (received p seg c).tcpState = (tcpTransition seg d).tcpState
      ∧ (received p seg c).currentInseqno = (tcpTransition seg d).currentInseqno := by
  obtain ⟨d, state, current, state', current'⟩ := received_sequence (p := p) seg c
  refine ⟨{ d with currentInseqno := seg.endSeqno }, state, rfl, ?_, ?_⟩
  · rw [state', Input.sequence, if_pos (by rw [current]; exact order)]
  · rw [current', Input.sequence, if_pos (by rw [current]; exact order)]

/-- Without a `SYN` there stays no connection. -/
theorem received_listens (listens : c.tcpState = .listen) (noSyn : ¬ seg.has tcpSyn)
    : (received p seg c).tcpState = .listen := by
  by_cases order : c.currentInseqno ≤ seg.endSeqno
  · obtain ⟨d, state, -, state', -⟩ := received_sequenced (p := p) order
    rw [listens] at state
    have unchanged : tcpTransition seg d = d := by simp [tcpTransition, state, noSyn]
    rw [state', unchanged, state]
  · rw [(received_unsequenced (UInt32.not_le.mp order)).1, listens]

--------------------------------------------------
-- The parser
--------------------------------------------------

variable {s s' : Server} {i : Nat} {a : Addr}

theorem isParsed_iff
    : isParsed seg (beforeParsing p seg c).1 (received p seg c)
      ↔ seg.payload ≠ [] ∧ (received p seg c).tcpState = .established
        ∧ (c.currentInseqno < seg.endSeqno ∨ (received p seg c).outputHandler = none) := by
  rw [beforeParsing_new, isParsed]
  simp only [Bool.and_eq_true, Bool.or_eq_true, decide_eq_true_eq, Option.isNone_iff_eq_none, and_assoc]

/-- A segment that is read to its end leaves nothing, and the parser does not return in it. -/
theorem readsAll_spec {r : Request} {heap : Heap} {handler : Option HandlerRef} {bytes : List UInt8}
    (reads : readsAll p r heap handler bytes)
    : unfed p r heap handler bytes = [] ∧ ∀ heap', parseSegment p r heap handler bytes ≠ some (.returned heap') := by
  unfold readsAll at reads
  unfold unfed parseSegment
  cases start : startSegment p r heap handler with
  | none =>
      rw [start] at reads
      cases reads
  | some st =>
      rw [start, Option.bind_some] at reads
      cases loop : parseLoop p (3 * bytes.length + 3) st bytes with
      | none =>
          rw [loop] at reads
          cases reads
      | some parsed =>
          rw [loop, Option.any_some] at reads
          cases parsed with
          | quit st' => cases reads
          | done st' rest =>
              have ended : rest = [] := List.isEmpty_iff.mp reads
              refine ⟨?_, fun heap' returned => ?_⟩
              · simp only [loop]
                exact ended
              · simp [loop] at returned

theorem fedBytes_unparsed (found : findConnection p s seg = (some i, c))
    (plain : ¬ isParsed seg (beforeParsing p seg c).1 (received p seg c))
    : fedBytes p s seg = [] := by
  unfold fedBytes
  rw [found]
  exact if_neg fun both => plain both.2

theorem fedBytes_read (found : findConnection p s seg = (some i, c)) (port : seg.dstPort % 256 = 80)
    (parsed : isParsed seg (beforeParsing p seg c).1 (received p seg c))
    (reads : readsAll p c.request s.heap (received p seg c).outputHandler seg.payload)
    : fedBytes p s seg = numbered seg.seqno seg.payload := by
  have request := (received_frame (p := p) seg c).request
  unfold fedBytes
  rw [found]
  dsimp only
  rw [if_pos ⟨port, parsed⟩, request, (readsAll_spec reads).1, List.length_nil, Nat.sub_zero, List.take_length]

/-- A peer without connection feeds nothing. -/
theorem fedBytes_absent (found : findConnection p s seg = (none, listenConnection p s seg)) (noSyn : ¬ seg.has tcpSyn)
    : fedBytes p s seg = [] := by
  unfold fedBytes
  rw [found]
  refine if_neg fun both => ?_
  have state := (isParsed_iff.mp both.2).2.1
  rw [received_listens rfl noSyn] at state
  cases state

--------------------------------------------------
-- One segment
--------------------------------------------------

/-- The sequence number behind a segment. -/
theorem IsAt.endSeqno {first : UInt32} {stream : List UInt8} {k : Nat} (at_ : IsAt first stream k seg)
    : seg.endSeqno = first + UInt32.ofNat (k + seg.payload.length) := by
  rw [TcpSegment.endSeqno, TcpSegment.segmentLength, at_.seqno, UInt32.ofNat_add, UInt32.add_assoc]

/-- What a segment of the stream makes of an open connection. -/
structure Takes (p : Program) (first : UInt32) (stream : List UInt8) (n : Nat) (s : Server) (seg : TcpSegment)
    (c : HttpConnection) (m : Nat)
    : Prop where
  inside : m ≤ stream.length
  fed : numbered first (stream.take n) ++ fedBytes p s seg = numbered first (stream.take m)
  reads : isParsed seg (beforeParsing p seg c).1 (received p seg c)
    → readsAll p c.request s.heap (received p seg c).outputHandler seg.payload
  open_ : (received p seg c).tcpState = .established ∨ (received p seg c).tcpState = .lastAck
    ∨ (received p seg c).tcpState = .listen
  acknowledges : (received p seg c).tcpState ≠ .listen → Acknowledges first stream m (received p seg c)

/-- A segment that is not parsed feeds nothing. -/
theorem Takes.unparsed {first : UInt32} {stream : List UInt8} {n : Nat}
    (found : findConnection p s seg = (some i, c)) (inside : n ≤ stream.length)
    (plain : ¬ isParsed seg (beforeParsing p seg c).1 (received p seg c))
    (open_ : (received p seg c).tcpState = .established ∨ (received p seg c).tcpState = .lastAck
      ∨ (received p seg c).tcpState = .listen)
    (acknowledges : (received p seg c).tcpState ≠ .listen → Acknowledges first stream n (received p seg c))
    : Takes p first stream n s seg c n :=
  ⟨inside, by rw [fedBytes_unparsed found plain, List.append_nil], fun parsed => absurd parsed plain, open_, acknowledges⟩

/-- A segment for a connection after the `FIN`. -/
theorem takes_lastAck {first : UInt32} {stream : List UInt8} {n : Nat}
    (found : findConnection p s seg = (some i, c)) (inside : n ≤ stream.length) (closed : c.tcpState = .lastAck)
    (acknowledges : Acknowledges first stream n c)
    : Takes p first stream n s seg c n := by
  by_cases order : c.currentInseqno ≤ seg.endSeqno
  · obtain ⟨d, state, -, state', -⟩ := received_sequenced (p := p) order
    have listens : (received p seg c).tcpState = .listen := by
      rw [state', tcpTransition, state, closed]
    refine .unparsed found inside (fun parsed => ?_) (.inr (.inr listens)) fun other => absurd listens other
    have established := (isParsed_iff.mp parsed).2.1
    rw [listens] at established
    cases established
  · obtain ⟨state, current⟩ := received_unsequenced (p := p) (UInt32.not_le.mp order)
    refine .unparsed found inside (fun parsed => ?_) (.inr (.inl (state.trans closed))) fun _ => ?_
    · have established := (isParsed_iff.mp parsed).2.1
      rw [state, closed] at established
      cases established
    · rwa [Acknowledges, current]

/-- A segment in order for an established connection: `FIN`, reset, new data, old data. -/
theorem takes_established {first : UInt32} {stream : List UInt8} {n : Nat}
    (found : findConnection p s seg = (some i, c)) (inside : n ≤ stream.length) (ofStream : OfStream first stream seg)
    (open_ : c.tcpState = .established) (acknowledges : Acknowledges first stream n c)
    (inOrder : InOrder p first stream n s.heap seg c)
    : ∃ m, Takes p first stream n s seg c m := by
  have inOrder := inOrder open_
  by_cases order : c.currentInseqno ≤ seg.endSeqno
  swap
  · have old : ¬ c.currentInseqno < seg.endSeqno := fun new => order (UInt32.le_of_lt new)
    rw [if_neg fun both => order both.1, if_neg old] at inOrder
    obtain ⟨state, current⟩ := received_unsequenced (p := p) (UInt32.not_le.mp order)
    refine ⟨n, .unparsed found inside (fun parsed => ?_) (.inl (state.trans open_)) fun _ => by rwa [Acknowledges, current]⟩
    obtain ⟨data, -, new | free⟩ := isParsed_iff.mp parsed
    · exact old new
    · rcases inOrder with reset | none | handler
      · exact order reset.1
      · exact data none
      · rw [free] at handler
        cases handler
  obtain ⟨d, state, current, state', current'⟩ := received_sequenced (p := p) order
  rw [open_] at state
  by_cases fin : seg.has tcpFin
  · -- all bytes in front of the `FIN` were fed
    rw [if_pos ⟨order, fin⟩] at inOrder
    rw [tcpTransition, state] at state' current'
    simp only [fin, if_true, current] at state' current'
    refine ⟨n, .unparsed found inside (fun parsed => ?_) (.inr (.inl state')) fun _ => .inr ⟨inOrder, ?_⟩⟩
    · have established := (isParsed_iff.mp parsed).2.1
      rw [state'] at established
      cases established
    · obtain ⟨k, -, at_⟩ := ofStream.place
      rw [current', at_.endSeqno, at_.fin fin, inOrder]
  rw [if_neg fun both => fin both.2] at inOrder
  by_cases rst : seg.has tcpRst
  · rw [tcpTransition, state] at state'
    simp only [fin, rst, if_true] at state'
    refine ⟨n, .unparsed found inside (fun parsed => ?_) (.inr (.inr state')) fun other => absurd state' other⟩
    have established := (isParsed_iff.mp parsed).2.1
    rw [state'] at established
    cases established
  have unchanged : tcpTransition seg d = d := by simp [tcpTransition, state, fin, rst]
  rw [unchanged, state] at state'
  rw [unchanged, current] at current'
  by_cases new : c.currentInseqno < seg.endSeqno
  · rw [if_pos new] at inOrder
    rcases inOrder with reset | ⟨at_, reads⟩ | ⟨none, at_, whole⟩
    · exact absurd reset rst
    · by_cases none : seg.payload = []
      · refine ⟨n, .unparsed found inside (fun parsed => (isParsed_iff.mp parsed).1 none) (.inl state') fun _ => .inl ?_⟩
        rw [current', at_.endSeqno, none, List.length_nil, Nat.add_zero]
      · have parsed := isParsed_iff.mpr ⟨none, state', .inl new⟩
        obtain ⟨fits, next⟩ := at_.numbered inside
        refine ⟨n + seg.payload.length, fits, ?_, fun _ => reads none, .inl state', fun _ => .inl ?_⟩
        · rw [fedBytes_read found ofStream.port parsed (reads none), next]
        · rw [current', at_.endSeqno]
    · refine ⟨n, .unparsed found inside (fun parsed => (isParsed_iff.mp parsed).1 none) (.inl state') fun _ =>
        .inr ⟨whole, ?_⟩⟩
      rw [current', at_.endSeqno, none, List.length_nil, Nat.add_zero, UInt32.ofNat_add, UInt32.add_assoc]
      rfl
  · rw [if_neg new] at inOrder
    have same : seg.endSeqno = c.currentInseqno := UInt32.le_antisymm (UInt32.not_lt.mp new) order
    refine ⟨n, .unparsed found inside (fun parsed => ?_) (.inl state') fun _ => ?_⟩
    · obtain ⟨data, -, new' | free⟩ := isParsed_iff.mp parsed
      · exact new new'
      · rcases inOrder with reset | none | handler
        · exact rst reset.2
        · exact data none
        · rw [free] at handler
          cases handler
    · rwa [Acknowledges, current', same]

--------------------------------------------------
-- Runs
--------------------------------------------------

/-- A segment without `SYN` from a peer without connection adds none. -/
theorem smewsReceive_unconnected (step : smewsReceive p seg s = some s') (noSyn : ¬ seg.has tcpSyn)
    (absent : ∀ k ∈ s.connections, ¬ isPeer seg k) {d : HttpConnection} (mem : ⟨a, .http d⟩ ∈ s'.connections)
    : ¬ isPeer seg ⟨a, .http d⟩ := by
  rcases smewsReceive_origin step mem with old | ⟨-, opened, e, state, -, same, old | ⟨-, listens⟩⟩
  · exact absent _ old
  · rw [isPeer_iff, same, ← isPeer_iff]
    exact absent _ old
  · rw [state, received_listens listens noSyn] at opened
    exact absurd rfl opened

/-- What holds along a run: besides what was fed, that the connection of the peer is open. -/
structure Delivering (peer : UInt32 × UInt16) (first : UInt32) (stream : List UInt8) (f : Feeding) : Prop where
  distinct : (peers f.server.connections).Nodup
  part : ∃ n ≤ stream.length, f.fed = numbered first (stream.take n)
    ∧ ∀ a c, ⟨a, .http c⟩ ∈ f.server.connections → (c.ipAddr, c.port) = peer
      → (c.tcpState = .established ∨ c.tcpState = .lastAck) ∧ Acknowledges first stream n c

section Step

variable {peer : UInt32 × UInt16} {first : UInt32} {stream : List UInt8} {f f' : Feeding} {event : Event}

/-- An event that is not a segment of the peer. -/
theorem Delivering.unrelated (delivering : Delivering peer first stream f) (step : Step p f.server event f'.server)
    (fed : f'.fed = f.fed) (other : ∀ seg, event = .receive seg → (seg.srcAddr, seg.srcPort) ≠ peer)
    : Delivering peer first stream f' := by
  obtain ⟨distinct, n, inside, fed_eq, each⟩ := delivering
  refine ⟨step_peers step distinct, n, inside, fed.trans fed_eq, fun a c mem own => ?_⟩
  by_cases receive : ∃ seg, event = .receive seg
  · obtain ⟨seg, rfl⟩ := receive
    refine each a c ((smewsReceive_origin step mem).resolve_right fun from_ => other seg rfl ?_) own
    exact (Option.some.inj (isPeer_iff.mp from_.1)).symm.trans own
  · obtain ⟨d, old, frame⟩ := (step_framed step fun seg eq => receive ⟨seg, eq⟩).kept a c mem
    obtain ⟨open_, acknowledges⟩ := each a d old (by rw [← frame.ipAddr, ← frame.port]; exact own)
    rw [Acknowledges, frame.tcpState, frame.currentInseqno]
    exact ⟨open_, acknowledges⟩

/-- A segment of the peer. -/
theorem Delivering.segment (delivering : Delivering peer first stream f) {seg : TcpSegment}
    (step : smewsReceive p seg f.server = some f'.server) (fed : f'.fed = f.fed ++ fedBytes p f.server seg)
    (own : (seg.srcAddr, seg.srcPort) = peer) (ofStream : OfStream first stream seg)
    (inOrder : ∀ a c, ⟨a, .http c⟩ ∈ f.server.connections → isPeer seg ⟨a, .http c⟩
      → InOrder p first stream f.fed.length f.server.heap seg c)
    : Delivering peer first stream f' := by
  obtain ⟨distinct, n, inside, fed_eq, each⟩ := delivering
  have distinct' : (peers f'.server.connections).Nodup :=
    step_peers (show Step p f.server (.receive seg) f'.server from step) distinct
  have same {a : Addr} {c : HttpConnection} : isPeer seg ⟨a, .http c⟩ ↔ (c.ipAddr, c.port) = peer := by
    rw [isPeer_iff, peerOf, Option.some.injEq, own]
  rcases findConnection_cases (p := p) f.server seg with ⟨i, a, c, found, at_i, peer'⟩ | ⟨found, absent⟩
  swap
  · refine ⟨distinct', n, inside, ?_, fun a c mem own' => ?_⟩
    · rw [fed, fedBytes_absent found ofStream.noSyn, List.append_nil, fed_eq]
    · exact absurd (same.mpr own') (smewsReceive_unconnected step ofStream.noSyn absent mem)
  have mem := List.mem_of_getElem? at_i
  have length : f.fed.length = n := by
    rw [fed_eq, length_numbered, List.length_take]
    omega
  obtain ⟨state, acknowledges⟩ := each a c mem (same.mp peer')
  have takes : ∃ m, Takes p first stream n f.server seg c m := by
    rcases state with established | lastAck
    · exact takes_established found inside ofStream established acknowledges (length ▸ inOrder a c mem peer')
    · exact ⟨n, takes_lastAck found inside lastAck acknowledges⟩
  obtain ⟨m, takes⟩ := takes
  refine ⟨distinct', m, takes.inside, ?_, fun b d mem' own' => ?_⟩
  · rw [fed, fed_eq, takes.fed]
  cases smewsReceive_own found ofStream.port ofStream.valid step with
  | returned heap early ring =>
      obtain ⟨parsed, returned⟩ := process_returned early
      exact absurd returned ((readsAll_spec (takes.reads parsed)).2 heap)
  | freed ring =>
      -- the connection at the position was the one of the peer
      rw [ring] at mem'
      have perm := (RoundRobin.perm_moved at_i).filterMap peerOf
      have apart := (List.nodup_cons.mp (perm.nodup_iff.mp distinct)).1
      refine absurd (List.mem_filterMap.mpr ⟨_, mem', ?_⟩) apart
      exact congrArg some (own'.trans (same.mp peer').symm)
  | stored c' service processed opened ring =>
      obtain ⟨ipAddr, port⟩ := Processed.peer processed
      have stored : (⟨a, .http { c' with generatorService := service }⟩ : Connection) ∈ f'.server.connections := by
        rw [ring]
        exact List.mem_of_getElem? (i := i) (by simp [Server.setHttp, at_i])
      have own_c : (c'.ipAddr, c'.port) = peer := by rw [ipAddr, port, same.mp peer']
      have unique := peer_unique distinct' mem' stored (congrArg some own') (congrArg some own_c)
      simp only [Connection.mk.injEq, Protocol.http.injEq] at unique
      obtain ⟨-, rfl⟩ := unique
      have state' := processed.frame.tcpState
      have opened : (received p seg c).tcpState ≠ .listen := fun listens => opened (state'.trans listens)
      refine ⟨?_, ?_⟩
      · rw [state']
        rcases takes.open_ with established | lastAck | listens
        · exact .inl established
        · exact .inr lastAck
        · exact absurd listens opened
      · rw [Acknowledges, processed.frame.currentInseqno]
        exact takes.acknowledges opened

theorem Delivering.step (delivering : Delivering peer first stream f) (step : InOrderStep p peer first stream f event f')
    : Delivering peer first stream f' := by
  obtain ⟨⟨step, fed, ofStream⟩, inOrder⟩ := step
  by_cases own : ∃ seg, event = .receive seg ∧ (seg.srcAddr, seg.srcPort) = peer
  · obtain ⟨seg, rfl, own⟩ := own
    refine delivering.segment step ?_ own (ofStream seg rfl own) (inOrder seg rfl own)
    rw [fed, feeds, if_pos own]
  · have none : feeds p peer f.server event = [] := by
      cases event with
      | receive seg => exact if_neg fun eq => own ⟨seg, rfl, eq⟩
      | _ => rfl
    rw [none, List.append_nil] at fed
    exact delivering.unrelated step fed fun seg eq peer' => own ⟨seg, eq, peer'⟩

end Step

/-- The next bytes of the stream, without flags of the state machine. -/
theorem InOrder.of_next {first : UInt32} {stream : List UInt8} {n : Nat} {heap : Heap}
    (new : c.currentInseqno < seg.endSeqno) (noFin : ¬ seg.has tcpFin) (at_ : IsAt first stream n seg)
    (reads : readsAll p c.request heap (received p seg c).outputHandler seg.payload)
    : InOrder p first stream n heap seg c := by
  intro _
  rw [if_neg fun both => noFin both.2, if_pos new]
  exact .inr (.inl ⟨at_, fun _ => reads⟩)

/-- The only connection of a ring. -/
theorem http_sole {s : Server} {c d : HttpConnection} {a : Addr} (here : s.http 0 = some c) (one : s.connections.length = 1)
    (mem : ⟨a, .http d⟩ ∈ s.connections)
    : d = c := by
  obtain ⟨b, at_0⟩ := http_eq here
  obtain ⟨k, only⟩ := List.length_eq_one_iff.mp one
  rw [only, List.getElem?_cons_zero, Option.some.injEq] at at_0
  rw [only, List.mem_singleton, at_0] at mem
  cases mem
  rfl

theorem firstPart_fits : 40 + ([] : List UInt8).length + (ascii "GET /").length < 65536 := by decide
theorem secondPart_fits : 40 + ([] : List UInt8).length + (ascii "a ").length < 65536 := by decide

/-- The parts of a request up to the end of its URL, where the parser stops. -/
def firstPart : TcpSegment := clientSegment 1001 0x42b7a492 tcpAck 8192 [] (ascii "GET /") firstPart_fits
def secondPart : TcpSegment := clientSegment 1006 0x42b7a492 tcpAck 8192 [] (ascii "a ") secondPart_fits

def getRequest : List UInt8 := ascii "GET /a "

theorem firstPart_at : IsAt 1001 getRequest 0 firstPart := ⟨by decide, by decide, by decide⟩
theorem secondPart_at : IsAt 1001 getRequest 5 secondPart := ⟨by decide, by decide, by decide⟩

/-- The handshake of a client. -/
def clientConnects : List Event :=
  [.receive clientSyn, .send, .receive (clientSegment 1001 0x42b7a492 tcpAck 8192 [] [] bare_fits)]

/-- A segment of the client's request, for its only connection. -/
theorem ClientStep.of_part {s s' : Server} {fed part : List (UInt32 × UInt8)} {k : Nat}
    (step : next p s (.receive seg) = some s') (feeds_ : fedBytes p s seg = part)
    (own : (seg.srcAddr, seg.srcPort) = (0xc0a80105, 4000)) (port : seg.dstPort % 256 = 80)
    (valid : seg.checksumValid = true) (noSyn : ¬ seg.has tcpSyn) (inside : k ≤ getRequest.length + 1)
    (at_ : IsAt 1001 getRequest k seg)
    : ClientStep p (0xc0a80105, 4000) 1001 getRequest ⟨s, fed⟩ (.receive seg) ⟨s', fed ++ part⟩ := by
  refine ⟨step, by rw [feeds, if_pos own, feeds_], fun seg' eq _ => ?_⟩
  cases eq
  exact ⟨port, valid, noSyn, k, inside, at_⟩

end Smews.System
