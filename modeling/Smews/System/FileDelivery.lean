import Smews.Input.StateMachine
import Smews.Library.Reassembly
import Smews.Output.Destinations
import Smews.System.FileSegments
import Smews.System.WindowBookkeeping

/-! A static file on its way to a client, over a network that loses, repeats and reorders packets in both directions.
-/

namespace Smews.System

open Smews.Core Input Output Runs Reassembly

variable {p : Program}

--------------------------------------------------
-- The two ends
--------------------------------------------------

/-- A response with a static file: the connection that it is sent on, where its sequence numbers start, and how many
packets were sent before. Its sequence numbers do not wrap.
-/
structure Download (p : Program) where
  handler : HandlerRef
  file : StaticResource
  name : Addr
  peer : UInt32 × UInt16
  start : UInt32
  earlier : Nat
  static : staticFile p handler = some file
  behind : 0 < start.toNat
  fits : start.toNat + file.data.length < 4294967296

/-- The sequence number of a position of the response. -/
def Download.seqno (d : Download p) (n : Nat) : UInt32 := d.start + UInt32.ofNat n

/-- The server, what the client has of the response, and the acknowledgements that it sent, by the lengths that they
stand for.
-/
structure Transfer where
  server : Server
  received : List UInt8
  acknowledged : List Nat

/-- What happens to the server, the arrival of a packet at the client, and an acknowledgement of the client. -/
inductive TransferEvent
  | server (event : Event)
  | deliver (packet : Packet)
  | acknowledge

/-- The piece of the response in a packet for the client. -/
def Download.pieceOf (d : Download p) (packet : Packet) : Option (Piece UInt8) :=
  match packet.body with
  | .tcp port seqno _ _ _ payload =>
      if (packet.destination, port) = d.peer then some ⟨(seqno - d.start).toNat, payload⟩ else none
  | .gpip _ _ => none

/-- A segment of the client: an acknowledgement that it sent some time ago. It carries no data, and not more than 65535
bytes were sent since.
-/
def Download.Acknowledging (d : Download p) (t : Transfer) (seg : TcpSegment) : Prop :=
  seg.payload = [] ∧ (∃ n ∈ t.acknowledged, seg.ackno = d.seqno n)
  ∧ ∀ k ∈ t.server.connections, ∀ c ∈ httpOf k, (c.ipAddr, c.port) = d.peer → seg.ackno ≤ c.nextOutseqno
    → (c.nextOutseqno - seg.ackno).toNat < 65536

/-- What may happen: a packet arrives that was sent since the response began, and the client acknowledges what it has.
The segments of other peers, and corrupted ones, are arbitrary.
-/
def Download.Allowed (d : Download p) (t : Transfer) : TransferEvent → Prop
  | .server (.receive seg) => (seg.srcAddr, seg.srcPort) = d.peer → seg.checksumValid → d.Acknowledging t seg
  | .server _ => True
  | .deliver packet => packet ∈ (t.server.sent.drop d.earlier).map Prod.snd
  | .acknowledge => True

/-- The two ends after an event, unless the behaviour of the source is undefined. -/
def Download.after (d : Download p) (t : Transfer) : TransferEvent → Option Transfer
  | .server event => (next p t.server event).map fun server => { t with server }
  | .deliver packet => some { t with received := (d.pieceOf packet).elim t.received (accept t.received) }
  | .acknowledge => some { t with acknowledged := t.received.length :: t.acknowledged }

def TransferStep (d : Download p) (t : Transfer) (event : TransferEvent) (t' : Transfer) : Prop :=
  d.after t event = some t' ∧ d.Allowed t event

section Decidable

instance (d : Download p) (t : Transfer) (seg : TcpSegment) : Decidable (d.Acknowledging t seg) :=
  inferInstanceAs (Decidable (_ ∧ _ ∧ ∀ k ∈ t.server.connections, ∀ c ∈ httpOf k, _))

instance (d : Download p) (t : Transfer) (event : TransferEvent) : Decidable (d.Allowed t event) :=
  match event with
  | .server (.receive _) => inferInstanceAs (Decidable (_ → _ → _))
  | .server (.receiveGpIp ..) | .server .send | .server .retransmit | .server (.push _) | .server (.packetOut ..) =>
      .isTrue trivial
  | .deliver _ => inferInstanceAs (Decidable (_ ∈ _))
  | .acknowledge => .isTrue trivial

end Decidable

/-- The response was set up on its connection, and nothing of it was sent. -/
structure Download.Begun (d : Download p) (s : Server) (c : HttpConnection) : Prop where
  member : ⟨d.name, .http c⟩ ∈ s.connections
  peer : (c.ipAddr, c.port) = d.peer
  handler : c.outputHandler = some d.handler
  state : c.tcpState = .established
  noAck : c.cometSendAck = false
  begins : responseStart c d.file = d.start
  next : c.nextOutseqno = d.start
  idle : c.inflight = 0
  earlier : d.earlier = s.sent.length

--------------------------------------------------
-- Positions
--------------------------------------------------

section Positions

variable (d : Download p) {n m : Nat}

/-- A position between two chunks of the file, or behind it. -/
def Download.Boundary (n : Nat) : Prop :=
  n ≤ d.file.data.length ∧ (1 <<< p.chuncksNbits ∣ n ∨ n = d.file.data.length)

theorem Download.boundary_zero : d.Boundary 0 := ⟨Nat.zero_le _, .inl (Nat.dvd_zero _)⟩

theorem Download.toNat_seqno (inside : n ≤ d.file.data.length) : (d.seqno n).toNat = d.start.toNat + n := by
  have fits := d.fits
  rw [Download.seqno, UInt32.toNat_add, UInt32.toNat_ofNat']
  omega

theorem Download.sub_start (inside : n ≤ d.file.data.length) : (d.seqno n - d.start).toNat = n := by
  have fits := d.fits
  have cancel : d.seqno n - d.start = UInt32.ofNat n := by
    unfold Download.seqno
    grind
  rw [cancel, UInt32.toNat_ofNat']
  omega

theorem Download.seqno_inj (inside : n ≤ d.file.data.length) (inside' : m ≤ d.file.data.length)
    (same : d.seqno n = d.seqno m)
    : n = m := by
  rw [← d.sub_start inside, same, d.sub_start inside']

theorem Download.seqno_sub (le : m ≤ n) (inside : n ≤ d.file.data.length) : (d.seqno n - d.seqno m).toNat = n - m := by
  have le' : d.seqno m ≤ d.seqno n := by
    rw [UInt32.le_iff_toNat_le, d.toNat_seqno inside, d.toNat_seqno (Nat.le_trans le inside)]
    omega
  rw [UInt32.toNat_sub_of_le _ _ le', d.toNat_seqno inside, d.toNat_seqno (Nat.le_trans le inside)]
  omega

theorem Download.onBoundary_iff {c : HttpConnection} (begins : responseStart c d.file = d.start)
    (inside : n ≤ d.file.data.length)
    : OnBoundary p c d.file (d.seqno n) ↔ d.Boundary n := by
  unfold OnBoundary Download.Boundary
  dsimp only
  rw [begins, d.sub_start inside]

end Positions

--------------------------------------------------
-- The connection of the client
--------------------------------------------------

/-- The connection serves the file. The client has `n` bytes, and everything that the server takes for acknowledged. -/
structure Download.Serving (d : Download p) (n : Nat) (c : HttpConnection) : Prop where
  handler : c.outputHandler = some d.handler
  state : c.tcpState = .established
  noAck : c.cometSendAck = false
  begins : responseStart c d.file = d.start
  window : ∃ u x, u ≤ x ∧ u ≤ n ∧ d.Boundary u ∧ d.Boundary x
    ∧ c.nextOutseqno = d.seqno x ∧ c.inflight.toNat = x - u

/-- A connection that sends no data. -/
def OnlyControl (p : Program) (c : HttpConnection) : Prop := ∀ h ∈ c.outputHandler, p.isControl h

/-- The response is over. As long as the connection is established, the client has the file. -/
structure Download.Over (d : Download p) (n : Nat) (c : HttpConnection) : Prop where
  control : OnlyControl p c
  open_ : c.tcpState ≠ .listen
  settled : c.tcpState ≠ .synRcvd
  whole : c.tcpState = .established → c.outputHandler = none ∧ d.file.data.length ≤ n

/-- What becomes of the connection of the client. Another one may follow it. -/
inductive Download.Followed (d : Download p) (n : Nat) (a : Addr) (c : HttpConnection) : Prop
  | serving (serving : d.Serving n c)
  | finished (done : d.Over n c)
  | later (other : a ≠ d.name) (control : OnlyControl p c)

section Connection

variable {d : Download p} {n m k : Nat} {a : Addr} {c c' : HttpConnection} {seg : TcpSegment} {h : HandlerRef}

theorem Download.Serving.mono (serving : d.Serving n c) (le : n ≤ m) : d.Serving m c := by
  obtain ⟨handler, state, noAck, begins, u, x, order, known, rest⟩ := serving
  exact ⟨handler, state, noAck, begins, u, x, order, Nat.le_trans known le, rest⟩

theorem Download.Followed.mono (followed : d.Followed n a c) (le : n ≤ m) : d.Followed m a c := by
  cases followed with
  | serving serving => exact .serving (serving.mono le)
  | finished done =>
      exact .finished { done with whole := fun state => ⟨(done.whole state).1, Nat.le_trans (done.whole state).2 le⟩ }
  | later other control => exact .later other control

theorem Download.Serving.congr (serving : d.Serving n c) (handler : c'.outputHandler = c.outputHandler)
    (state : c'.tcpState = c.tcpState) (noAck : c'.cometSendAck = c.cometSendAck)
    (final : c'.finalOutseqno = c.finalOutseqno) (next : c'.nextOutseqno = c.nextOutseqno)
    (inflight : c'.inflight = c.inflight)
    : d.Serving n c' := by
  obtain ⟨handler', state', noAck', begins, u, x, order, known, before, after, next', inflight'⟩ := serving
  refine ⟨handler.trans handler', state.trans state', noAck.trans noAck', ?_, u, x, order, known, before, after,
    next.trans next', by rw [inflight, inflight']⟩
  rw [← begins, responseStart, responseStart, final]

/-- A connection that serves the file has no handler of another kind. -/
theorem Download.Followed.not_generator {resource : DynamicResource} (followed : d.Followed n a c)
    (handler : c.outputHandler = some h)
    : (p.handler h).data ≠ .generator resource := by
  intro generator
  have control (only : OnlyControl p c) : False := by
    have isControl := only h handler
    simp [Program.isControl, generator] at isControl
  cases followed with
  | serving serving =>
      rw [serving.handler] at handler
      cases handler
      rw [(staticFile_eq d.static).1] at generator
      cases generator
  | finished done => exact control done.control
  | later _ only => exact control only

/-- An acknowledgement moves the window to what the client has, or back to what it had. -/
theorem Download.Serving.acknowledge (serving : d.Serving n c) (boundary : d.Boundary k) (known : k ≤ n)
    (recent : d.seqno k ≤ c.nextOutseqno → (c.nextOutseqno - d.seqno k).toNat < 65536)
    : d.Serving n (acknowledge c (d.seqno k)).1 := by
  obtain ⟨handler, state, noAck, begins, u, x, order, below, before, after, next, inflight⟩ := serving
  have behind := d.behind
  have nonzero : d.seqno k ≠ 0 := by
    intro zero
    have toNat := congrArg UInt32.toNat zero
    rw [d.toNat_seqno boundary.1] at toNat
    have : (0 : UInt32).toNat = 0 := rfl
    omega
  have una : c.nextOutseqno - c.inflight.toUInt32 = d.seqno u := by
    have size : c.inflight.toUInt32 = UInt32.ofNat (x - u) := by
      rw [← inflight]
      exact (UInt32.toNat_inj.mp (by simp))
    rw [size, next, Download.seqno, Download.seqno, ← Nat.sub_add_cancel order, UInt32.ofNat_add]
    simp only [Nat.add_sub_cancel]
    grind
  unfold Input.acknowledge
  rw [una]
  dsimp only
  split
  · rename_i same
    have index := d.seqno_inj before.1 boundary.1 same
    subst index
    rw [if_pos ⟨nonzero, UInt32.le_refl _⟩]
    exact ⟨handler, state, noAck, begins, u, u, Nat.le_refl u, below, before, before, rfl, by simp⟩
  · split
    · rename_i taken
      have recent := recent taken.2
      have le : k ≤ x := by
        have order := UInt32.le_iff_toNat_le.mp taken.2
        rw [next, d.toNat_seqno boundary.1, d.toNat_seqno after.1] at order
        omega
      refine ⟨handler, state, noAck, begins, k, x, le, known, boundary, after, next, ?_⟩
      rw [next] at recent ⊢
      rw [d.seqno_sub le after.1] at recent
      rw [UInt32.toNat_toUInt16, d.seqno_sub le after.1]
      omega
    · exact ⟨handler, state, noAck, begins, u, x, order, below, before, after, next, inflight⟩

/-- A response that is acknowledged as a whole was received as a whole. -/
theorem Download.Serving.done (serving : d.Serving n c) (done : responseDone p c) : d.file.data.length ≤ n := by
  obtain ⟨handler, state, noAck, begins, u, x, order, below, before, after, next, inflight⟩ := serving
  have control : p.isControl d.handler = false := by
    simp [Program.isControl, (staticFile_eq d.static).1]
  simp only [responseDone, HttpConnection.somethingToSend, handler, control, noAck, state, Option.isSome_some,
    Bool.true_and, Bool.or_self, Bool.false_eq_true, if_false, decide_true, Bool.and_eq_true, decide_eq_true_eq,
    Bool.not_eq_true', bne_eq_false_iff_eq] at done
  have final : c.finalOutseqno = d.seqno d.file.data.length := by
    rw [Download.seqno, ← begins, responseStart]
    grind
  have index := d.seqno_inj after.1 le_rfl (next.symm.trans (done.2.trans final))
  have zero : c.inflight.toNat = 0 := by rw [done.1]; rfl
  omega

/-- The headers of a segment leave a connection without data without data. -/
theorem OnlyControl.received (control : OnlyControl p c) : OnlyControl p (received p seg c) := by
  intro h handler
  by_contra notControl
  exact notControl (control h (received_outputHandler handler notControl).1)

/-- A segment of the client that carries an acknowledgement. -/
theorem Download.Serving.received (serving : d.Serving n c) (boundary : d.Boundary k) (known : k ≤ n)
    (ackno : seg.ackno = d.seqno k)
    (recent : seg.ackno ≤ c.nextOutseqno → (c.nextOutseqno - seg.ackno).toNat < 65536)
    (open_ : (received p seg c).tcpState ≠ .listen)
    : d.Serving n (received p seg c) ∨ d.Over n (received p seg c) := by
  obtain ⟨⟨e, cleared, transition⟩, next, inflight⟩ := received_headers (p := p) seg c
  have frame := received_frame (p := p) seg c
  rw [ackno] at next inflight cleared recent
  have acked := serving.acknowledge boundary known recent
  have frame' := acknowledge_frame c (d.seqno k)
  have same : e.tcpState = .established := by
    cases cleared with
    | kept same => rw [same, acked.state]
    | cleared done same => rw [same, acked.state]
  cases transition with
  | opens listening | repeats listening | settles listening | ends listening =>
      rw [same] at listening
      cases listening
  | resets _ _ state => exact absurd state open_
  | finishes _ _ state handler =>
      refine .inr ⟨?_, open_, ?_, ?_⟩
      · intro h own
        rw [handler] at own
        cases own
        rfl
      · rw [state]
        exact nofun
      · rw [state]
        exact nofun
  | stays state handler =>
      cases cleared with
      | kept same =>
          subst same
          exact .inl (acked.congr handler state (frame.cometSendAck.trans frame'.cometSendAck.symm)
            (frame.finalOutseqno.trans frame'.finalOutseqno.symm) next inflight)
      | cleared done same' =>
          subst same'
          refine .inr ⟨?_, open_, ?_, fun _ => ⟨handler, acked.done done⟩⟩
          · intro h own
            rw [handler] at own
            cases own
          · rw [state, same]
            exact nofun

theorem Download.Over.received (done : d.Over n c) (open_ : (received p seg c).tcpState ≠ .listen)
    : d.Over n (received p seg c) := by
  obtain ⟨⟨e, cleared, transition⟩, -, -⟩ := received_headers (p := p) seg c
  obtain ⟨state1, handler1, -⟩ := acknowledge_tcpState c seg.ackno
  have before : e.tcpState = c.tcpState ∧ (c.outputHandler = none → e.outputHandler = none) := by
    cases cleared with
    | kept same => exact ⟨by rw [same, state1], fun none => by rw [same, handler1, none]⟩
    | cleared done same => exact ⟨by rw [same, state1], fun _ => by rw [same]⟩
  refine ⟨done.control.received, open_, ?_, fun established => ?_⟩
  · exact received_not_synRcvd done.open_ done.settled
  · cases transition with
    | opens _ _ state | repeats _ _ state | finishes _ _ state | resets _ _ state | ends _ state =>
        rw [state] at established
        cases established
    | settles waiting => exact absurd (before.1.symm.trans waiting) done.settled
    | stays state handler =>
        obtain ⟨none, whole⟩ := done.whole (before.1.symm.trans (state.symm.trans established))
        exact ⟨handler.trans (before.2 none), whole⟩

end Connection

--------------------------------------------------
-- The invariant
--------------------------------------------------

/-- A piece of the response that ends on a boundary, or nothing. -/
def Download.Carried (d : Download p) (piece : Piece UInt8) : Prop :=
  piece.elements = [] ∨ piece.Of d.file.data ∧ d.Boundary piece.stop

/-- The packets for the client carry pieces of the response. -/
def Download.CarriedBy (d : Download p) (packets : List (Option Addr × Packet)) : Prop :=
  ∀ entry ∈ packets, ∀ piece ∈ d.pieceOf entry.2, d.Carried piece

/-- The two ends of the response. -/
structure Download.Exchanging (d : Download p) (t : Transfer) : Prop where
  distinct : (peers t.server.connections).Nodup
  given : d.name < t.server.heap.next
  peer : ∀ c, ⟨d.name, .http c⟩ ∈ t.server.connections → (c.ipAddr, c.port) = d.peer
  each : ∀ a c, ⟨a, .http c⟩ ∈ t.server.connections → (c.ipAddr, c.port) = d.peer → d.Followed t.received.length a c
  earlier : d.earlier ≤ t.server.sent.length
  sent : d.CarriedBy (t.server.sent.drop d.earlier)
  received : t.received <+: d.file.data
  boundary : d.Boundary t.received.length
  acknowledged : ∀ n ∈ t.acknowledged, d.Boundary n ∧ n ≤ t.received.length

section Invariant

variable {d : Download p} {n : Nat} {a : Addr} {c : HttpConnection} {s s' : Server} {t t' : Transfer}

/-- A piece comes in a packet that is sent to the client. -/
theorem Download.pieceOf_peer {packet : Packet} {piece : Piece UInt8} (own : d.pieceOf packet = some piece)
    {peer : UInt32 × UInt16} (reaches : sentTo peer (some a, packet))
    : peer = d.peer := by
  obtain ⟨destination, body⟩ := packet
  cases body with
  | gpip protocol payload => cases own
  | tcp port seqno ackno flags options payload =>
      unfold Download.pieceOf at own
      dsimp only at own
      split at own
      · rename_i same
        simp only [sentTo, Bool.and_eq_true, decide_eq_true_eq] at reaches
        rw [← same, reaches.1, reaches.2]
      · cases own

/-- A packet for a connection, with its payload. -/
theorem Download.pieceOf_packetFor {h : HandlerRef} {payload : List UInt8} {piece : Piece UInt8}
    (own : d.pieceOf (packetFor p c h payload) = some piece)
    : (c.ipAddr, c.port) = d.peer ∧ piece = ⟨(c.nextOutseqno - d.start).toNat, payload⟩ := by
  unfold Download.pieceOf packetFor at own
  dsimp only at own
  split at own
  · rename_i same
    exact ⟨same, (Option.some.inj own).symm⟩
  · cases own

theorem Download.CarriedBy.empty {h : HandlerRef} (a : Addr) (c : HttpConnection)
    : d.CarriedBy [(some a, packetFor p c h [])] := by
  intro entry mem piece own
  rw [List.mem_singleton] at mem
  subst mem
  rw [(Download.pieceOf_packetFor own).2]
  exact .inl rfl

/-- The segment of the file that a connection sends, and the connection behind it. -/
theorem Download.Serving.segment (serving : d.Serving n c) (able : (Connection.mk a (.http c)).ableToSend p)
    {payload : List UInt8} (content : filePayload p c d.file = some payload)
    : d.CarriedBy [(some a, packetFor p c d.handler payload)]
      ∧ d.Serving n { c with
        nextOutseqno := c.nextOutseqno + UInt32.ofNat payload.length
        inflight := c.inflight + UInt16.ofNat payload.length } := by
  obtain ⟨handler, state, noAck, begins, u, x, order, below, before, after, next, inflight⟩ := serving
  have control : p.isControl d.handler = false := by
    simp [Program.isControl, (staticFile_eq d.static).1]
  simp only [Connection.ableToSend, HttpConnection.somethingToSend, handler, control, noAck, state, Bool.or_self,
    Bool.false_eq_true, if_false, decide_true, Bool.true_and, Bool.and_eq_true, decide_eq_true_eq, bne_iff_ne,
    Bool.not_eq_true'] at able
  obtain ⟨⟨something, -⟩, window⟩ := able
  have onBoundary : OnBoundary p c d.file c.nextOutseqno := by
    rw [next]
    exact (d.onBoundary_iff begins after.1).mpr after
  have index : (indexInFile c d.file).toNat = x := by
    rw [indexInFile, ← d.sub_start after.1, ← next, ← begins, responseStart]
    congr 1
    grind
  obtain ⟨inside, stop⟩ := onBoundary.segment
  have inside := inside something
  have length := filePayload_length content
  rw [← length, next] at stop
  have room := inside.inside
  rw [index, ← length] at room
  have moved : d.seqno x + UInt32.ofNat payload.length = d.seqno (x + payload.length) := by
    rw [Download.seqno, Download.seqno, UInt32.ofNat_add]
    grind
  rw [moved] at stop
  have stop := (d.onBoundary_iff begins room).mp stop
  refine ⟨fun entry mem piece own => ?_, handler, state, noAck, begins, u, x + payload.length, by omega, below, before,
    stop, ?_, ?_⟩
  · rw [List.mem_singleton] at mem
    subst mem
    rw [(Download.pieceOf_packetFor own).2, next, d.sub_start after.1]
    refine .inr ⟨⟨room, ?_⟩, stop⟩
    have eq := Option.some.inj (content.symm.trans inside.content)
    rw [index, ← length] at eq
    exact eq
  · dsimp only
    rw [next, moved]
  · have short : payload.length ≤ c.tcpMss.toNat := by
      have shift : p.maxOutSize c.tcpMss ≤ c.tcpMss.toNat := by
        rw [Program.maxOutSize, Nat.shiftLeft_eq, Nat.shiftRight_eq_div_pow]
        exact Nat.div_mul_le_self _ _
      rw [length, fileSegmentLength]
      omega
    have size := c.cwnd.toNat_lt
    rw [UInt16.toNat_add, UInt16.toNat_ofNat', inflight]
    omega

/-- The connection that `smews_send` serves. -/
theorem Download.Followed.serves {u : Server} {before : List Connection}
    (ring : u.connections = before ++ [⟨a, .http c⟩])
    (each : ∀ a c, ⟨a, .http c⟩ ∈ u.connections → (c.ipAddr, c.port) = d.peer → d.Followed n a c)
    (able : (Connection.mk a (.http c)).ableToSend p) (serves : Serves p u before a c s')
    : (∀ b e, ⟨b, .http e⟩ ∈ s'.connections → (e.ipAddr, e.port) = d.peer → d.Followed n b e)
      ∧ ∃ new, s'.sent = u.sent ++ new ∧ d.CarriedBy new := by
  have last : ⟨a, .http c⟩ ∈ u.connections := by simp [ring]
  have others {b : Addr} {e : HttpConnection} (mem : ⟨b, .http e⟩ ∈ before) (peer : (e.ipAddr, e.port) = d.peer)
      : d.Followed n b e :=
    each b e (ring ▸ List.mem_append_left _ mem) peer
  -- a ring whose last connection was served, or is gone
  have served {c' : HttpConnection} {ring' : List Connection}
      (same : (c'.ipAddr, c'.port) = (c.ipAddr, c.port))
      (follows : (c.ipAddr, c.port) = d.peer → d.Followed n a c')
      (kept : ring' = before ∨ ring' = before ++ [⟨a, .http c'⟩])
      : ∀ b e, ⟨b, .http e⟩ ∈ ring' → (e.ipAddr, e.port) = d.peer → d.Followed n b e := by
    intro b e mem peer
    rcases kept with rfl | rfl
    · exact others mem peer
    · rw [List.mem_append, List.mem_singleton] at mem
      rcases mem with mem | own
      · exact others mem peer
      · cases own
        exact follows (same ▸ peer)
  cases serves with
  | ack instead sent ring' =>
      refine ⟨?_, _, sent, Download.CarriedBy.empty a _⟩
      refine served ?_ (fun own => ?_) (ring'.imp And.right And.right)
      · obtain ⟨ipAddr, port, -⟩ := afterControl_frame c.outputHandler { c with
          outputHandler := some .ack
          transmissionTime := u.lastTransmissionTime }
        rw [advance_ack, ipAddr, port]
      · rw [advance_ack]
        obtain ⟨-, -, state⟩ := afterControl_frame c.outputHandler { c with
          outputHandler := some .ack
          transmissionTime := u.lastTransmissionTime }
        have handler : (afterControl c.outputHandler { c with
            outputHandler := some .ack
            transmissionTime := u.lastTransmissionTime }).outputHandler = c.outputHandler := by
          unfold afterControl
          cases c.outputHandler with
          | none => rfl
          | some h =>
              dsimp only
              split <;> rfl
        cases each a c last own with
        | serving serving =>
            have notReady : ¬ c.request.readyToSend := by
              refine instead.resolve_right fun ack => ?_
              rw [serving.noAck] at ack
              cases ack
            refine .serving (serving.congr handler state ?_ ?_ ?_ ?_) <;>
              (rw [serving.handler, afterControl, if_neg notReady])
        | finished done =>
            refine .finished ⟨fun h own => done.control h (handler ▸ own), ?_, ?_, fun established => ?_⟩
            · rw [state]
              exact done.open_
            · rw [state]
              exact done.settled
            · rw [handler]
              exact done.whole (state ▸ established)
        | later other control => exact .later other fun h own => control h (handler ▸ own)
  | control h ready noAck handler isControl sent ring' =>
      refine ⟨?_, _, sent, .empty a c⟩
      obtain ⟨ipAddr, port, state, -⟩ := advance_frame (p := p) (t := u) c h 0
      refine served ?_ (fun own => ?_) (ring'.imp And.right And.right)
      · exact Prod.ext ipAddr port
      · have none : OnlyControl p (afterControl none { advance p u c h 0 with
            transmissionTime := u.lastTransmissionTime }) := by
          intro h' own
          cases own
        cases each a c last own with
        | serving serving =>
            have file := Option.some.inj (serving.handler.symm.trans handler)
            exact absurd (file ▸ isControl) (not_isControl d.static)
        | finished done =>
            refine .finished ⟨none, fun listen => done.open_ (state.symm.trans listen),
              fun waits => done.settled (state.symm.trans waits), fun established => ?_⟩
            obtain ⟨free, -⟩ := done.whole (state.symm.trans established)
            rw [handler] at free
            cases free
        | later other control => exact .later other none
  | file h file payload ready noAck handler isFile content sent ring' =>
      have noControl (only : OnlyControl p c) : False := by
        have isControl := only h handler
        simp [Program.isControl, isFile] at isControl
      by_cases own : (c.ipAddr, c.port) = d.peer
      swap
      · refine ⟨served ?_ (fun peer => absurd peer own) (.inr ring'), _, sent, fun entry mem piece carried => ?_⟩
        · obtain ⟨ipAddr, port, -⟩ := advance_frame (p := p) (t := u) c h payload.length
          exact Prod.ext ipAddr port
        · rw [List.mem_singleton] at mem
          subst mem
          exact absurd (Download.pieceOf_packetFor carried).1 own
      cases each a c last own with
      | finished done => exact (noControl done.control).elim
      | later other control => exact (noControl control).elim
      | serving serving =>
          have same := Option.some.inj (serving.handler.symm.trans handler)
          subst same
          rw [(staticFile_eq d.static).1] at isFile
          cases isFile
          obtain ⟨carried, behind⟩ := serving.segment able content
          rw [advance_file (staticFile_eq d.static).1] at ring'
          have follows : d.Followed n a { c with
              nextOutseqno := c.nextOutseqno + UInt32.ofNat payload.length
              inflight := c.inflight + UInt16.ofNat payload.length
              transmissionTime := u.lastTransmissionTime } :=
            .serving (behind.congr rfl rfl rfl rfl rfl rfl)
          refine ⟨served ?_ (fun _ => follows) (.inr ring'), _, sent, carried⟩
          rfl
  | generator h resource ready noAck handler isGenerator call served' =>
      have at_last : u.connections[before.length]? = some ⟨a, .http c⟩ := by simp [ring]
      obtain ⟨new, sent, addressed⟩ := sendGenerator_destined call isGenerator at_last handler
      refine ⟨fun b e mem peer => ?_, new, sent, fun entry mem piece carried => ?_⟩
      · obtain ⟨e', mem', same⟩ := mem_ringServed served' mem
        rcases same with rfl | pair
        · exact each b e mem' peer
        · have followed := each b e' mem' (by rw [← pair.ipAddr, ← pair.port]; exact peer)
          exact absurd isGenerator (followed.not_generator pair.handler)
      · obtain ⟨b, e, mem', handler', name, reaches⟩ := addressed entry mem
        obtain ⟨name', packet⟩ := entry
        subst name
        have peer := Download.pieceOf_peer carried reaches
        exact absurd isGenerator ((each b e mem' peer).not_generator handler')

/-- A step of the server whose packets carry pieces of the response. -/
theorem Download.Exchanging.after (exchanging : d.Exchanging t) {event : Event} (step : Step p t.server event s')
    (peer : ∀ c, ⟨d.name, .http c⟩ ∈ s'.connections → (c.ipAddr, c.port) = d.peer)
    (each : ∀ a c, ⟨a, .http c⟩ ∈ s'.connections → (c.ipAddr, c.port) = d.peer → d.Followed t.received.length a c)
    (new : ∃ new, s'.sent = t.server.sent ++ new ∧ d.CarriedBy new)
    : d.Exchanging { t with server := s' } := by
  obtain ⟨new, sent, carried⟩ := new
  refine {
    distinct := step_peers step exchanging.distinct
    given := Nat.lt_of_lt_of_le exchanging.given (step_keeps (allocatorInv_next _) step le_rfl)
    peer
    each
    earlier := ?_
    sent := ?_
    received := exchanging.received
    boundary := exchanging.boundary
    acknowledged := exchanging.acknowledged
  }
  · dsimp only
    rw [sent, List.length_append]
    exact Nat.le_add_right_of_le exchanging.earlier
  · dsimp only
    rw [sent, List.drop_append_of_le_length exchanging.earlier]
    intro entry mem
    rcases List.mem_append.mp mem with mem | mem
    · exact exchanging.sent entry mem
    · exact carried entry mem

theorem Download.Exchanging.send (exchanging : d.Exchanging t) (step : smewsSend p t.server = some s')
    : d.Exchanging { t with server := s' } := by
  have event : Step p t.server .send s' := step
  have peer (c : HttpConnection) (mem : ⟨d.name, .http c⟩ ∈ s'.connections) : (c.ipAddr, c.port) = d.peer := by
    obtain ⟨c', mem', frame⟩ := (smewsSend_framed step).kept _ c mem
    rw [frame.ipAddr, frame.port]
    exact exchanging.peer c' mem'
  cases smewsSend_sends step with
  | nothing _ _ same =>
      subst same
      exact exchanging
  | reset rst same =>
      subst same
      refine exchanging.after event peer exchanging.each ⟨_, rfl, fun entry mem piece own => ?_⟩
      rw [List.mem_singleton] at mem
      subst mem
      unfold Download.pieceOf at own
      dsimp only at own
      split at own
      · cases own
        exact .inl rfl
      · cases own
  | gpip i before b g rst chosen ring answered =>
      refine exchanging.after event peer (fun a c mem => ?_) ?_
      · rw [answered.ring] at mem
        exact exchanging.each a c (mem_rotate.mp (ring ▸ List.mem_append_left _ mem))
      · obtain ⟨g', -, sent⟩ := answered.sent
        refine ⟨_, sent, fun entry mem piece own => ?_⟩
        rw [List.mem_singleton] at mem
        subst mem
        cases own
  | http i before b c rst chosen able ring serves =>
      have each (a : Addr) (c : HttpConnection) (mem : ⟨a, .http c⟩ ∈ (rotate i t.server).connections)
          : (c.ipAddr, c.port) = d.peer → d.Followed t.received.length a c :=
        exchanging.each a c (mem_rotate.mp mem)
      obtain ⟨each', new⟩ := Download.Followed.serves ring each able serves
      exact exchanging.after event peer each' new

/-- A segment, which is an acknowledgement if it comes from the client. -/
theorem Download.Exchanging.receive (exchanging : d.Exchanging t) {seg : TcpSegment}
    (step : smewsReceive p seg t.server = some s')
    (honest : (seg.srcAddr, seg.srcPort) = d.peer → seg.checksumValid → d.Acknowledging t seg)
    : d.Exchanging { t with server := s' } := by
  have event : Step p t.server (.receive seg) s' := step
  have quiet : ∃ new, s'.sent = t.server.sent ++ new ∧ d.CarriedBy new :=
    ⟨[], by rw [step_sent event Bool.false_ne_true, List.append_nil], fun entry mem => absurd mem List.not_mem_nil⟩
  cases smewsReceive_receives step with
  | ignored ring =>
      refine exchanging.after event ?_ ?_ quiet
      · exact fun c mem => exchanging.peer c (ring ▸ mem)
      · exact fun a c mem => exchanging.each a c (ring ▸ mem)
  | freed i _ _ _ ring =>
      have old {a : Addr} {c : HttpConnection} (mem : ⟨a, .http c⟩ ∈ s'.connections)
          : ⟨a, .http c⟩ ∈ t.server.connections := by
        rw [ring, List.mem_append] at mem
        exact mem.elim List.mem_of_mem_drop List.mem_of_mem_take
      refine exchanging.after event ?_ ?_ quiet
      · exact fun c mem => exchanging.peer c (old mem)
      · exact fun a c mem => exchanging.each a c (old mem)
  | stored i b e e' service found at_i own port valid processed open_ ring =>
      have member := List.mem_of_getElem? at_i
      obtain ⟨ipAddr, port'⟩ := Processed.peer processed
      refine exchanging.after event (fun c mem => ?_) (fun a c mem peer => ?_) quiet <;> rw [ring] at mem <;>
        rcases mem_setHttp at_i mem with old | ⟨rfl, rfl⟩
      · exact exchanging.peer c old
      · exact (Prod.ext ipAddr port').trans (exchanging.peer e member)
      · exact exchanging.each a c old peer
      · have client : (e.ipAddr, e.port) = d.peer := by
          rw [← peer]
          exact (Prod.ext ipAddr port').symm
        have sender : (seg.srcAddr, seg.srcPort) = d.peer :=
          (Option.some.inj ((isPeer_iff.mp own).symm.trans rfl)).trans client
        obtain ⟨empty, ⟨n, known, ackno⟩, recent⟩ := honest sender valid
        obtain ⟨boundary, below⟩ := exchanging.acknowledged n known
        obtain rfl := processed.empty empty
        have stored (followed : d.Serving t.received.length (Input.received p seg e)
            ∨ d.Over t.received.length (Input.received p seg e))
            : d.Followed t.received.length a { Input.received p seg e with generatorService := service } := by
          rcases followed with serving | done
          · exact .serving (serving.congr rfl rfl rfl rfl rfl rfl)
          · exact .finished ⟨done.control, done.open_, done.settled, done.whole⟩
        cases exchanging.each a e member client with
        | serving serving =>
            exact stored (serving.received boundary below ackno (recent _ member e rfl client) open_)
        | finished done => exact stored (.inr (done.received open_))
        | later other control => exact .later other control.received
  | added b c' valid processed syn ring =>
      have fresh := (smewsReceive_fresh step ring).1
      refine exchanging.after event (fun c mem => ?_) (fun a c mem peer => ?_) quiet <;>
        rw [ring, List.mem_append, List.mem_singleton] at mem <;> rcases mem with old | new
      · exact exchanging.peer c old
      · cases new
        exact absurd exchanging.given (Nat.not_lt.mpr fresh)
      · exact exchanging.each a c old peer
      · cases new
        obtain ⟨ipAddr, port⟩ := Processed.peer processed
        have sender : (seg.srcAddr, seg.srcPort) = d.peer := by
          rw [← peer, ipAddr, port]
          rfl
        obtain rfl := processed.empty (honest sender valid).1
        refine .later (fun same => absurd exchanging.given ?_) fun h handler => ?_
        · rw [← same]
          exact Nat.not_lt.mpr fresh
        · rw [received_listen syn] at handler
          cases handler
          rfl

/-- A change of all the connections that keeps them on the response. -/
theorem Download.Exchanging.mapHttp (exchanging : d.Exchanging t) {event : Event} {f : HttpConnection → HttpConnection}
    {u : Server} (step : Step p t.server event (System.mapHttp f u)) (same : u.connections = t.server.connections)
    (quiet : ¬ event.isSend) (frame : ∀ c, SegmentFrame c (f c)) (handler : ∀ c, (f c).outputHandler = c.outputHandler)
    (serves : ∀ c, d.Serving t.received.length c → d.Serving t.received.length (f c))
    : d.Exchanging { t with server := System.mapHttp f u } := by
  have old {a : Addr} {c : HttpConnection} (mem : ⟨a, .http c⟩ ∈ (System.mapHttp f u).connections)
      : ∃ e, ⟨a, .http e⟩ ∈ t.server.connections ∧ c = f e := by
    obtain ⟨e, mem, eq⟩ := mem_mapHttp.mp mem
    exact ⟨e, same ▸ mem, eq⟩
  refine exchanging.after step (fun c mem => ?_) (fun a c mem peer => ?_) ⟨[], ?_, ?_⟩
  · obtain ⟨e, member, rfl⟩ := old mem
    rw [(frame e).ipAddr, (frame e).port]
    exact exchanging.peer e member
  · obtain ⟨e, member, rfl⟩ := old mem
    rw [(frame e).ipAddr, (frame e).port] at peer
    have control (only : OnlyControl p e) : OnlyControl p (f e) := fun h own => only h (handler e ▸ own)
    cases exchanging.each a e member peer with
    | serving serving => exact .serving (serves e serving)
    | later other only => exact .later other (control only)
    | finished done =>
        refine .finished ⟨control done.control, ?_, ?_, fun established => ?_⟩
        · rw [(frame e).tcpState]
          exact done.open_
        · rw [(frame e).tcpState]
          exact done.settled
        · rw [handler]
          exact done.whole ((frame e).tcpState ▸ established)
  · rw [step_sent step quiet, List.append_nil]
  · exact fun entry mem => absurd mem List.not_mem_nil

/-- A roll-back leads to what is not acknowledged. -/
theorem Download.Serving.rollBack (serving : d.Serving n c) (now : UInt8) : d.Serving n (System.rollBack now c) := by
  unfold System.rollBack
  split
  swap
  · exact serving
  obtain ⟨handler, state, noAck, begins, u, x, order, below, before, after, next, inflight⟩ := serving
  refine ⟨handler, state, noAck, begins, u, u, le_rfl, below, before, before, ?_, by simp⟩
  dsimp only
  have size : c.inflight.toUInt32 = UInt32.ofNat (x - u) := by
    rw [← inflight]
    exact UInt32.toNat_inj.mp (by simp)
  rw [size, next, Download.seqno, Download.seqno, ← Nat.sub_add_cancel order, UInt32.ofNat_add]
  simp only [Nat.add_sub_cancel]
  grind

theorem Download.Exchanging.step {event : TransferEvent} (exchanging : d.Exchanging t)
    (step : TransferStep d t event t')
    : d.Exchanging t' := by
  obtain ⟨step, allowed⟩ := step
  cases event with
  | acknowledge =>
      cases step
      refine { exchanging with acknowledged := fun n mem => ?_ }
      rcases List.mem_cons.mp mem with rfl | mem
      · exact ⟨exchanging.boundary, le_rfl⟩
      · exact exchanging.acknowledged n mem
  | deliver packet =>
      cases step
      obtain ⟨entry, mem, rfl⟩ := List.mem_map.mp allowed
      cases own : d.pieceOf entry.2 with
      | none => exact exchanging
      | some piece =>
          dsimp only [Option.elim]
          rcases exchanging.sent entry mem piece own with empty | ⟨of, stop⟩
          · obtain ⟨position, elements⟩ := piece
            dsimp only at empty
            subst empty
            rw [accept_empty]
            exact exchanging
          · have grows := (prefix_accept t.received piece).length_le
            refine {
              distinct := exchanging.distinct
              given := exchanging.given
              peer := exchanging.peer
              each := fun a c mem peer => (exchanging.each a c mem peer).mono grows
              earlier := exchanging.earlier
              sent := exchanging.sent
              received := accept_known exchanging.received of
              boundary := ?_
              acknowledged := fun n mem => ⟨(exchanging.acknowledged n mem).1,
                Nat.le_trans (exchanging.acknowledged n mem).2 grows⟩
            }
            rcases length_accept t.received piece with same | stopped
            · rw [same]
              exact exchanging.boundary
            · rw [stopped]
              exact stop
  | server event =>
      obtain ⟨server, called, rfl⟩ := Option.map_eq_some_iff.mp step
      have step : Step p t.server event server := called
      have still (same : ∀ a c, ⟨a, .http c⟩ ∈ server.connections → ⟨a, .http c⟩ ∈ t.server.connections)
          (quiet : ¬ event.isSend)
          : d.Exchanging { t with server } := by
        refine exchanging.after step (fun c mem => exchanging.peer c (same _ c mem))
          (fun a c mem => exchanging.each a c (same a c mem)) ⟨[], ?_, ?_⟩
        · rw [step_sent step quiet, List.append_nil]
        · exact fun entry mem => absurd mem List.not_mem_nil
      cases event with
      | receive seg => exact exchanging.receive step allowed
      | send => exact exchanging.send step
      | receiveGpIp srcAddr protocol payload =>
          exact still (fun a c mem => smewsReceiveGpIp_http step mem) Bool.false_ne_true
      | packetOut protocol address =>
          refine still (fun a c mem => ?_) Bool.false_ne_true
          simp only [next, Option.some.injEq] at called
          subst called
          exact requestPacketOutCall_http mem
      | retransmit =>
          simp only [next, Option.some.injEq] at called
          subst called
          refine exchanging.mapHttp step rfl Bool.false_ne_true (fun c => ?_) (fun c => ?_)
            fun c serving => serving.rollBack _
          · unfold System.rollBack
            split <;> exact ⟨rfl, rfl, rfl, rfl, rfl, rfl⟩
          · unfold System.rollBack
            split <;> rfl
      | push handler =>
          simp only [next, Option.some.injEq] at called
          subst called
          unfold serverPush at step ⊢
          by_cases comet : (p.handler handler).handlerComet
          · rw [if_pos comet] at step ⊢
            refine exchanging.mapHttp step rfl Bool.false_ne_true (fun c => ?_) (fun c => ?_) fun c serving => ?_
            · split <;> exact ⟨rfl, rfl, rfl, rfl, rfl, rfl⟩
            · split <;> rfl
            · rw [if_neg]
              · exact serving
              · intro listens
                have same := Option.some.inj (listens.symm.trans serving.handler)
                subst same
                rw [(staticFile_eq d.static).2] at comet
                cases comet
          · rw [if_neg comet]
            exact exchanging

end Invariant

--------------------------------------------------
-- Runs
--------------------------------------------------

/-- The response with the file of 200 bytes, on the first connection. -/
def sixChunksDownload : Download (oneFile sixChunks) :=
  {
    handler := .resource 0
    file := sixChunks
    name := 0
    peer := (0xc0a80105, 4000)
    start := firstByte
    earlier := 1
    static := rfl
    behind := by decide
    fits := by decide +kernel
  }

/-- A segment of the response. -/
def sixChunksPacket (n length : Nat) : Packet :=
  {
    destination := 0xc0a80105
    body := .tcp 4000 (firstByte + UInt32.ofNat n) 1020 (tcpAck ||| tcpPsh) [] (List.replicate length 65)
  }

/-- The second segment overtakes the first one, which is lost and repeated; the second one is repeated when the timer
expires again.
-/
def lossyTransfer : List TransferEvent :=
  let acknowledges (n : UInt32) : TransferEvent :=
    .server (.receive (clientSegment 1020 (firstByte + n) tcpAck 8192 [] [] bare_fits))
  let expires : List TransferEvent := List.replicate 5 (.server .retransmit)
  [.server .send, .server .send, .deliver (sixChunksPacket 128 72)]
  ++ expires
  ++ [
    .server .send, .deliver (sixChunksPacket 0 128), .deliver (sixChunksPacket 0 128), .acknowledge, acknowledges 128
  ]
  ++ expires
  ++ [.server .send, .deliver (sixChunksPacket 128 72), .acknowledge, acknowledges 200]

end Smews.System
