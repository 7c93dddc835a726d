import Smews.Input.SelectedHandlers
import Smews.Output.SendWindows
import Smews.System.Fairness
import Smews.System.Handshake
import Smews.System.SegmentBounds

/-! The sending window of a connection along the runs: `next_outseqno - inflight` beside the acknowledgement numbers
that were received, and `next_outseqno` beside the sequence numbers that were sent.
-/

namespace Smews.System

open Smews.Core Input Output Runs

variable {p : Program}

--------------------------------------------------
-- Windows
--------------------------------------------------

/-- The first byte that was not acknowledged, as the connection has it. -/
def windowStart (c : HttpConnection) : UInt32 := c.nextOutseqno - c.inflight.toUInt32

/-- A server, with the highest acknowledgement number that was received on a connection, and the highest sequence number
that was sent on it.
-/
structure Tracking where
  server : Server
  acked : UInt32
  top : UInt32

/-- The highest acknowledgement number, when another one was received: numbers are compared from the highest one so far
on, and those behind what was sent do not count.
-/
def acknowledgedBy (acked top ackno : UInt32) : UInt32 := if ackno - acked ≤ top - acked then ackno else acked

/-- The highest sequence number, when a packet was sent. -/
def sentUpTo (acked top : UInt32) (packet : Packet) : UInt32 :=
  match packet.body with
  | .tcp _ seqno _ _ _ payload =>
      let last := seqno + UInt32.ofNat payload.length
      if top - acked < last - acked then last else top
  | .gpip _ _ => top

/-- A valid segment for the connection with a name. -/
def reaches (a : Addr) (s : Server) (seg : TcpSegment) : Bool :=
  seg.dstPort % 256 = 80 && seg.checksumValid && s.connections.any fun k => k.addr = a && isPeer seg k

/-- The highest acknowledgement number after an event. -/
def trackAcked (a : Addr) (t : Tracking) : Event → UInt32
  | .receive seg => if reaches a t.server seg then acknowledgedBy t.acked t.top seg.ackno else t.acked
  | _ => t.acked

def TrackedStep (p : Program) (a : Addr) (t : Tracking) (event : Event) (t' : Tracking) : Prop :=
  Step p t.server event t'.server ∧ t'.acked = trackAcked a t event
    ∧ t'.top = (sentOn a (t'.server.sent.drop t.server.sent.length)).foldl (sentUpTo t.acked) t.top

/-- `next_outseqno - inflight` is the highest acknowledgement number that was received, and `next_outseqno` does not
exceed what was sent.
-/
def WindowKept (a : Addr) (t : Tracking) : Prop :=
  ∀ c, ⟨a, .http c⟩ ∈ t.server.connections → windowStart c = t.acked ∧ c.nextOutseqno - t.acked ≤ t.top - t.acked

/-- The highest acknowledgement number does not decrease. -/
theorem acknowledgedBy_advances (acked top ackno : UInt32)
    : acknowledgedBy acked top ackno - acked ≤ top - acked := by
  unfold acknowledgedBy
  split
  · assumption
  · rw [UInt32.sub_self]
    exact UInt32.zero_le

--------------------------------------------------
-- The condition
--------------------------------------------------

/-- What an acknowledgement number has to be. A duplicate one rolls back, unless it is 0; one that the code takes, which
is not above `next_outseqno` as an integer, is in flight; any other one is old or behind what was sent.
-/
def AckFits (c : HttpConnection) (top ackno : UInt32) : Prop :=
  if ackno = windowStart c then ackno = 0 → c.inflight = 0
  else if ackno ≠ 0 ∧ ackno ≤ c.nextOutseqno then ackno - windowStart c ≤ c.inflight.toUInt32
  else top - windowStart c < ackno - windowStart c

/-- A response begins with a segment. -/
def Begins (p : Program) (seg : TcpSegment) (c : HttpConnection) (heap : Heap) : Prop :=
  isParsed seg (beforeParsing p seg c).1 (received p seg c)
    ∧ ∃ o h, parseSegment p c.request heap (received p seg c).outputHandler seg.payload = some (.parsed o)
      ∧ o.selected = some h

/-- A segment is given up for want of memory. -/
def GivenUp (p : Program) (seg : TcpSegment) (c : HttpConnection) (heap : Heap) : Prop :=
  isParsed seg (beforeParsing p seg c).1 (received p seg c)
    ∧ ∃ heap', parseSegment p c.request heap (received p seg c).outputHandler seg.payload = some (.returned heap')

/-- What a segment of the connection has to be: a response begins when all was acknowledged or is sent again, and a
segment that is given up acknowledges nothing.
-/
structure SegmentKeeps (p : Program) (seg : TcpSegment) (c : HttpConnection) (heap : Heap) (top : UInt32) : Prop where
  ack : AckFits c top seg.ackno
  begins : Begins p seg c heap → seg.ackno = windowStart c ∨ seg.ackno = c.nextOutseqno
  givenUp : GivenUp p seg c heap → acknowledgedBy (windowStart c) top seg.ackno = windowStart c

/-- A step that meets the conditions; what a generator writes has room in its segment. -/
def KeepingStep (p : Program) (a : Addr) (t : Tracking) (event : Event) (t' : Tracking) : Prop :=
  TrackedStep p a t event t' ∧ (event = .send → SendFits p t.server)
    ∧ ∀ seg, event = .receive seg → reaches a t.server seg → ∀ c, ⟨a, .http c⟩ ∈ t.server.connections
      → SegmentKeeps p seg c t.server.heap t.top

--------------------------------------------------
-- Acknowledgements
--------------------------------------------------

section Arithmetic

variable {c : HttpConnection} {top n : UInt32}

/-- The window of a connection, as it is bounded by what was sent. -/
structure Inside (c : HttpConnection) (top : UInt32) : Prop where
  sent : c.inflight.toUInt32 ≤ top - windowStart c
  span : (top - windowStart c).toNat < 65536

theorem nextOutseqno_eq (c : HttpConnection) : c.nextOutseqno = windowStart c + c.inflight.toUInt32 := by
  rw [windowStart, UInt32.sub_add_cancel]

theorem acknowledge_duplicate (duplicate : n = windowStart c) (idle : n = 0 → c.inflight = 0)
    : (acknowledge c n).1 = { c with nextOutseqno := n, inflight := 0 } := by
  have same : c.nextOutseqno - c.inflight.toUInt32 = n := duplicate.symm
  unfold acknowledge
  rw [if_pos same]
  dsimp only
  by_cases zero : n = 0
  · rw [if_neg fun both => both.1 zero, idle zero]
  · rw [if_pos ⟨zero, UInt32.le_refl n⟩, UInt32.sub_self]
    rfl

theorem acknowledge_taken (new : n ≠ windowStart c) (taken : n ≠ 0 ∧ n ≤ c.nextOutseqno)
    : (acknowledge c n).1 = { c with inflight := (c.nextOutseqno - n).toUInt16 } := by
  unfold acknowledge
  rw [if_neg (show ¬ c.nextOutseqno - c.inflight.toUInt32 = n from fun same => new same.symm)]
  dsimp only
  rw [if_pos taken]

theorem acknowledge_ignored (new : n ≠ windowStart c) (ignored : ¬ (n ≠ 0 ∧ n ≤ c.nextOutseqno))
    : (acknowledge c n).1 = c := by
  unfold acknowledge
  rw [if_neg (show ¬ c.nextOutseqno - c.inflight.toUInt32 = n from fun same => new same.symm)]
  dsimp only
  rw [if_neg ignored]

/-- A number inside of what is in flight. -/
theorem sub_inside {start sent number top : UInt32} (below : number - start ≤ sent) (inside : sent ≤ top - start)
    : sent - (number - start) ≤ top - number ∧ top - number ≤ top - start := by
  have split : top - number = (top - start) - (number - start) := by grind
  have le := UInt32.le_trans below inside
  rw [split, UInt32.le_iff_toNat_le, UInt32.le_iff_toNat_le, UInt32.toNat_sub_of_le _ _ below,
    UInt32.toNat_sub_of_le _ _ le]
  rw [UInt32.le_iff_toNat_le] at below inside
  omega

theorem Inside.acknowledged (inside : Inside c top) (fits : AckFits c top n)
    : windowStart (acknowledge c n).1 = acknowledgedBy (windowStart c) top n ∧ Inside (acknowledge c n).1 top := by
  obtain ⟨sent, span⟩ := inside
  have next := nextOutseqno_eq c
  unfold AckFits at fits
  by_cases duplicate : n = windowStart c
  · rw [if_pos duplicate] at fits
    rw [acknowledge_duplicate duplicate fits]
    have start : windowStart { c with nextOutseqno := n, inflight := 0 } = n := UInt32.sub_zero n
    have unchanged : acknowledgedBy (windowStart c) top n = n := by
      unfold acknowledgedBy
      split
      · rfl
      · exact duplicate.symm
    refine ⟨start.trans unchanged.symm, ?_, ?_⟩
    · exact UInt32.zero_le
    · rw [start, duplicate]
      exact span
  rw [if_neg duplicate] at fits
  by_cases taken : n ≠ 0 ∧ n ≤ c.nextOutseqno
  · rw [if_pos taken] at fits
    rw [acknowledge_taken duplicate taken]
    obtain ⟨below, shorter⟩ := sub_inside fits sent
    have left : ((c.nextOutseqno - n).toUInt16).toUInt32 = c.inflight.toUInt32 - (n - windowStart c) := by
      have split : c.nextOutseqno - n = c.inflight.toUInt32 - (n - windowStart c) := by grind
      rw [split]
      have small := c.inflight.toNat_lt
      rw [← UInt32.toNat_inj, UInt16.toNat_toUInt32, UInt32.toNat_toUInt16, UInt32.toNat_sub_of_le _ _ fits,
        UInt16.toNat_toUInt32]
      omega
    have start : windowStart { c with inflight := (c.nextOutseqno - n).toUInt16 } = n := by
      show c.nextOutseqno - ((c.nextOutseqno - n).toUInt16).toUInt32 = n
      rw [left]
      grind
    have moved : acknowledgedBy (windowStart c) top n = n := if_pos (UInt32.le_trans fits sent)
    refine ⟨start.trans moved.symm, ?_, ?_⟩
    · show ((c.nextOutseqno - n).toUInt16).toUInt32 ≤ _
      rw [start, left]
      exact below
    · rw [start]
      rw [UInt32.le_iff_toNat_le] at shorter
      omega
  · rw [if_neg taken] at fits
    rw [acknowledge_ignored duplicate taken]
    exact ⟨(if_neg (UInt32.not_le.mpr fits)).symm, sent, span⟩

/-- A response that begins when all was acknowledged. -/
theorem acknowledge_begun (fits : AckFits c top n) (at_ : n = windowStart c ∨ n = c.nextOutseqno)
    : (acknowledge c n).1.nextOutseqno = n := by
  by_cases duplicate : n = windowStart c
  · unfold AckFits at fits
    rw [if_pos duplicate] at fits
    rw [acknowledge_duplicate duplicate fits]
  · have end_ := at_.resolve_left duplicate
    by_cases taken : n ≠ 0 ∧ n ≤ c.nextOutseqno
    · rw [acknowledge_taken duplicate taken, end_]
    · rw [acknowledge_ignored duplicate taken, end_]

/-- A payload that fits the window is sent. -/
theorem Inside.sending (inside : Inside c top) {c' : HttpConnection} {length : Nat}
    (room : c.inflight.toNat + length < 65536) (next : c'.nextOutseqno = c.nextOutseqno + UInt32.ofNat length)
    (inflight : c'.inflight = c.inflight + UInt16.ofNat length) {packet : Packet} {port : UInt16} {ackno : UInt32}
    {flags : UInt8} {options payload : List UInt8}
    (body : packet.body = .tcp port c.nextOutseqno ackno flags options payload) (of_length : payload.length = length)
    : windowStart c' = windowStart c ∧ Inside c' (sentUpTo (windowStart c) top packet) := by
  obtain ⟨sent, span⟩ := inside
  have grown : c'.inflight.toUInt32 = c.inflight.toUInt32 + UInt32.ofNat length := by
    rw [inflight, ← UInt32.toNat_inj, UInt16.toNat_toUInt32, UInt16.toNat_add, UInt32.toNat_add, UInt16.toNat_toUInt32,
      UInt16.toNat_ofNat', UInt32.toNat_ofNat']
    omega
  have size : c'.inflight.toUInt32.toNat < 65536 := by
    rw [UInt16.toNat_toUInt32]
    exact c'.inflight.toNat_lt
  have start : windowStart c' = windowStart c := by
    rw [windowStart, windowStart, next, grown]
    grind
  have last : c.nextOutseqno + UInt32.ofNat length - windowStart c = c'.inflight.toUInt32 := by
    rw [nextOutseqno_eq c, grown]
    grind
  refine ⟨start, ?_⟩
  have top_ : sentUpTo (windowStart c) top packet
      = if top - windowStart c < c'.inflight.toUInt32 then c.nextOutseqno + UInt32.ofNat length else top := by
    rw [sentUpTo, body]
    dsimp only
    rw [of_length, last]
  rw [top_]
  split
  · constructor
    · rw [start, last]
      exact UInt32.le_refl _
    · rw [start, last]
      exact size
  · next within =>
    constructor
    · rw [start]
      exact UInt32.not_lt.mp within
    · rw [start]
      exact span

end Arithmetic

--------------------------------------------------
-- Segments
--------------------------------------------------

section Segments

variable {seg : TcpSegment} {c c' : HttpConnection} {heap : Heap}

theorem received_window (seg : TcpSegment) (c : HttpConnection)
    : (received p seg c).nextOutseqno = (acknowledge c seg.ackno).1.nextOutseqno
      ∧ (received p seg c).inflight = (acknowledge c seg.ackno).1.inflight := by
  have cleared (d : HttpConnection)
      : (clearHandler p d).1.nextOutseqno = d.nextOutseqno ∧ (clearHandler p d).1.inflight = d.inflight := by
    unfold clearHandler
    split
    · dsimp only
      split <;> exact ⟨rfl, rfl⟩
    · exact ⟨rfl, rfl⟩
  have sequenced (d : HttpConnection)
      : (Input.sequence seg d).2.nextOutseqno = d.nextOutseqno ∧ (Input.sequence seg d).2.inflight = d.inflight := by
    unfold Input.sequence tcpTransition
    dsimp only
    repeat' split
    all_goals exact ⟨rfl, rfl⟩
  have negotiated (d : HttpConnection)
      : (negotiate p seg d).nextOutseqno = d.nextOutseqno ∧ (negotiate p seg d).inflight = d.inflight := by
    unfold negotiate
    dsimp only
    split <;> exact ⟨rfl, rfl⟩
  show (negotiate p seg (Input.sequence seg (clearHandler p (acknowledge c seg.ackno).1).1).2).nextOutseqno = _
    ∧ (negotiate p seg (Input.sequence seg (clearHandler p (acknowledge c seg.ackno).1).1).2).inflight = _
  rw [(negotiated _).1, (negotiated _).2, (sequenced _).1, (sequenced _).2, (cleared _).1, (cleared _).2]
  exact ⟨rfl, rfl⟩

/-- The window that a segment leaves: the acknowledgement number was handled, and maybe a response began at it. -/
theorem processed_window (processed : Processed p seg c heap c')
    : c'.inflight = (acknowledge c seg.ackno).1.inflight
      ∧ (c'.nextOutseqno = (acknowledge c seg.ackno).1.nextOutseqno
        ∨ c'.nextOutseqno = seg.ackno ∧ Begins p seg c heap) := by
  obtain ⟨next, inflight⟩ := received_window (p := p) seg c
  have queued (d : HttpConnection) : (queueAck seg d).nextOutseqno = d.nextOutseqno := by
    unfold queueAck
    split <;> rfl
  refine ⟨processed.frame.inflight.trans inflight, ?_⟩
  cases processed with
  | plain noData result =>
      rw [result, queued]
      exact .inl next
  | parsed o data parse result =>
      rw [result, queued]
      rw [(received_frame seg c).request] at parse
      unfold afterParsing
      dsimp only
      cases selected : o.selected with
      | some h => exact .inr ⟨rfl, data, o, h, parse, selected⟩
      | none =>
          dsimp only
          split <;> exact .inl next

/-- No `SYN` and `ACK` is queued once the handshake is over. -/
theorem processed_settled (processed : Processed p seg c heap c') (open_ : c.tcpState ≠ .listen)
    (settled : c.tcpState ≠ .synRcvd) (free : c.outputHandler ≠ some .synack)
    : c'.tcpState ≠ .synRcvd ∧ c'.outputHandler ≠ some .synack := by
  have state : c'.tcpState ≠ .synRcvd := by
    rw [processed.frame.tcpState]
    exact received_not_synRcvd open_ settled
  have acked : (acknowledge c seg.ackno).1.outputHandler = c.outputHandler
      ∧ (acknowledge c seg.ackno).1.tcpState = c.tcpState := by
    unfold acknowledge
    dsimp only
    split <;> split <;> exact ⟨rfl, rfl⟩
  have cleared (d : HttpConnection) (free : d.outputHandler ≠ some .synack)
      : (clearHandler p d).1.outputHandler ≠ some .synack ∧ (clearHandler p d).1.tcpState = d.tcpState := by
    unfold clearHandler
    split
    · dsimp only
      split
      · exact ⟨free, rfl⟩
      · exact ⟨nofun, rfl⟩
    · exact ⟨free, rfl⟩
  have transition (d : HttpConnection) (free : d.outputHandler ≠ some .synack) (open_ : d.tcpState ≠ .listen)
      (settled : d.tcpState ≠ .synRcvd)
      : (tcpTransition seg d).outputHandler ≠ some .synack := by
    unfold tcpTransition
    cases state : d.tcpState with
    | listen => exact absurd state open_
    | synRcvd => exact absurd state settled
    | established =>
        dsimp only
        split
        · exact nofun
        · split <;> exact free
    | closing => exact free
    | lastAck => exact free
  have received_ : (received p seg c).outputHandler ≠ some .synack := by
    have start := cleared (acknowledge c seg.ackno).1 (acked.1 ▸ free)
    show (negotiate p seg (Input.sequence seg (clearHandler p (acknowledge c seg.ackno).1).1).2).outputHandler ≠ _
    rw [(negotiate_frame' seg _).2.1]
    unfold Input.sequence
    dsimp only
    split
    · refine transition _ start.1 ?_ ?_
      · rw [start.2, acked.2]
        exact open_
      · rw [start.2, acked.2]
        exact settled
    · exact start.1
  have queued (d : HttpConnection) (free : d.outputHandler ≠ some .synack)
      : (queueAck seg d).outputHandler ≠ some .synack := by
    unfold queueAck
    split
    · exact nofun
    · exact free
  refine ⟨state, ?_⟩
  cases processed with
  | plain noData result =>
      rw [result]
      exact queued _ received_
  | parsed o data parse result =>
      rw [result]
      refine queued _ ?_
      unfold afterParsing
      dsimp only
      cases selected : o.selected with
      | some h =>
          have build (h : HandlerRef) (notControl : p.isControl h = false) : some h ≠ some .synack := by
            rintro ⟨rfl⟩
            cases notControl
          exact parseSegment_selected (p := p) (Q := (· ≠ some .synack)) build nofun received_ parse selected
      | none =>
          dsimp only
          split
          · exact nofun
          · exact received_

end Segments

--------------------------------------------------
-- Steps
--------------------------------------------------

/-- A connection whose window agrees with what was received and sent, behind its handshake. -/
structure Kept (acked top : UInt32) (c : HttpConnection) : Prop where
  start : windowStart c = acked
  inside : Inside c top
  open_ : c.tcpState ≠ .listen
  settled : c.tcpState ≠ .synRcvd
  free : c.outputHandler ≠ some .synack

theorem Kept.window {acked top : UInt32} {c : HttpConnection} (kept : Kept acked top c)
    : c.nextOutseqno - acked ≤ top - acked := by
  obtain ⟨rfl, inside, -, -, -⟩ := kept
  have inflight : c.nextOutseqno - windowStart c = c.inflight.toUInt32 := by
    rw [nextOutseqno_eq c]
    grind
  rw [inflight]
  exact inside.sent

/-- The connection with a name, and the ring around it. -/
structure Bookkept (a : Addr) (t : Tracking) : Prop where
  named : Named t.server
  distinct : (peers t.server.connections).Nodup
  given : a < t.server.heap.next
  each : ∀ c, ⟨a, .http c⟩ ∈ t.server.connections → Kept t.acked t.top c

theorem Named.unique {s : Server} {a : Addr} {c d : HttpConnection} (named : Named s) (mem : ⟨a, .http c⟩ ∈ s.connections)
    (mem' : ⟨a, .http d⟩ ∈ s.connections)
    : c = d :=
  Protocol.http.inj (Connection.mk.inj (name_unique named.distinct mem mem' rfl)).2

section Steps

variable {a : Addr} {t t' : Tracking}

/-- Nothing is sent but by `smews_send`. -/
theorem TrackedStep.top_quiet {event : Event} (step : TrackedStep p a t event t') (quiet : ¬ event.isSend)
    : t'.top = t.top := by
  obtain ⟨step, -, top⟩ := step
  rw [top, step_sent step quiet, List.drop_length]
  rfl

/-- A segment for another connection, or for none. -/
theorem Bookkept.passed (kept : Bookkept a t) {seg : TcpSegment} (step : smewsReceive p seg t.server = some t'.server)
    (other : ¬ reaches a t.server seg) {c : HttpConnection} (mem : ⟨a, .http c⟩ ∈ t'.server.connections)
    : ⟨a, .http c⟩ ∈ t.server.connections := by
  cases smewsReceive_receives step with
  | ignored ring => exact ring ▸ mem
  | stored i b d d' service found at_i peer port valid processed open_ ring =>
      rw [ring] at mem
      rcases mem_setHttp at_i mem with old | ⟨rfl, -⟩
      · exact old
      · refine absurd ?_ other
        rw [reaches, Bool.and_eq_true, Bool.and_eq_true, List.any_eq_true]
        exact ⟨⟨decide_eq_true port, valid⟩, _, List.mem_of_getElem? at_i, by simp [peer]⟩
  | freed i b d at_i ring =>
      rw [ring, List.mem_append] at mem
      exact mem.elim List.mem_of_mem_drop List.mem_of_mem_take
  | added b d valid processed syn ring =>
      have fresh := (smewsReceive_fresh step ring).1
      rw [ring, List.mem_append, List.mem_singleton] at mem
      rcases mem with old | new
      · exact old
      · cases new
        exact absurd kept.given (Nat.not_lt.mpr fresh)

/-- A segment for the connection. -/
theorem Bookkept.reached (kept : Bookkept a t) {seg : TcpSegment} (step : smewsReceive p seg t.server = some t'.server)
    (own : reaches a t.server seg) (named : Named t'.server)
    (fits : ∀ c, ⟨a, .http c⟩ ∈ t.server.connections → SegmentKeeps p seg c t.server.heap t.top) {c' : HttpConnection}
    (mem' : ⟨a, .http c'⟩ ∈ t'.server.connections)
    : Kept (acknowledgedBy t.acked t.top seg.ackno) t.top c' := by
  rw [reaches, Bool.and_eq_true, Bool.and_eq_true, decide_eq_true_eq, List.any_eq_true] at own
  obtain ⟨⟨port, valid⟩, k, member, same⟩ := own
  rw [Bool.and_eq_true, decide_eq_true_eq] at same
  obtain ⟨rfl, peer⟩ := same
  rcases findConnection_cases (p := p) t.server seg with ⟨i, b, c, found, at_i, peer'⟩ | ⟨-, absent⟩
  swap
  · exact absurd peer (absent k member)
  have mem := List.mem_of_getElem? at_i
  obtain rfl := peer_unique kept.distinct member mem (isPeer_iff.mp peer) (isPeer_iff.mp peer')
  obtain ⟨start, inside, open_, settled, free⟩ := kept.each c mem
  obtain ⟨ack, begins, givenUp⟩ := fits c mem
  cases smewsReceive_own found port valid step with
  | returned heap early ring =>
      rw [ring] at mem'
      obtain rfl := kept.named.unique mem mem'
      obtain ⟨parsed, returned⟩ := process_returned early
      rw [← start, givenUp ⟨parsed, heap, returned⟩]
      exact ⟨rfl, inside, open_, settled, free⟩
  | freed ring =>
      have names := ((RoundRobin.perm_moved at_i).map Connection.addr).nodup_iff.mp kept.named.distinct
      rw [ring] at mem'
      exact absurd (List.mem_map_of_mem mem') (List.nodup_cons.mp names).1
  | stored d service processed opened ring =>
      have stored : (⟨b, .http { d with generatorService := service }⟩ : Connection) ∈ t'.server.connections := by
        rw [ring]
        exact List.mem_of_getElem? (i := i) (by simp [Server.setHttp, at_i])
      obtain rfl := named.unique stored mem'
      obtain ⟨start', inside'⟩ := inside.acknowledged ack
      obtain ⟨settled', free'⟩ := processed_settled processed open_ settled free
      obtain ⟨inflight, next⟩ := processed_window processed
      have next' : d.nextOutseqno = (acknowledge c seg.ackno).1.nextOutseqno := by
        rcases next with next | ⟨next, begun⟩
        · exact next
        · rw [next, acknowledge_begun ack (begins begun)]
      have window : windowStart { d with generatorService := service } = windowStart (acknowledge c seg.ackno).1 := by
        show d.nextOutseqno - d.inflight.toUInt32 = _
        rw [next', inflight]
        rfl
      refine ⟨?_, ⟨?_, ?_⟩, opened, settled', free'⟩
      · rw [window, start', start]
      · rw [window]
        show d.inflight.toUInt32 ≤ _
        rw [inflight]
        exact inside'.sent
      · rw [window]
        exact inside'.span

/-- A call of `smews_send`. -/
theorem Bookkept.send (kept : Bookkept a t) (step : smewsSend p t.server = some t'.server) (fits : SendFits p t.server)
    {c' : HttpConnection} (mem' : ⟨a, .http c'⟩ ∈ t'.server.connections)
    : Kept t.acked ((sentOn a (t'.server.sent.drop t.server.sent.length)).foldl (sentUpTo t.acked) t.top) c' := by
  obtain ⟨new, sent, each⟩ := smewsSend_windows step kept.named.distinct
  obtain ⟨c, mem, by_⟩ := each a c' mem'
  obtain ⟨start, inside, open_, settled, free⟩ := kept.each c mem
  rw [← start]
  obtain ⟨d, old, frame⟩ := (smewsSend_framed step).kept a c' mem'
  obtain rfl := kept.named.unique old mem
  have free' : c'.outputHandler ≠ some .synack := by
    rcases by_.outputHandler with same | none
    · rw [same]
      exact free
    · rw [none]
      exact nofun
  rw [← frame.tcpState] at open_ settled
  rw [sent, List.drop_left]
  cases by_.moves free with
  | still nothing next inflight =>
      rw [nothing]
      have start : windowStart c' = windowStart d := by rw [windowStart, windowStart, next, inflight]
      refine ⟨start, ⟨?_, ?_⟩, open_, settled, free'⟩
      · rw [start, inflight]
        exact inside.sent
      · rw [start]
        exact inside.span
  | sent destination port ackno flags options payload packet next inflight =>
      obtain ⟨new', sent', windows'⟩ := (smewsSend_bounded step fits).emits
      obtain rfl := List.append_cancel_left (sent.symm.trans sent')
      have entry : (some a, ⟨destination, .tcp port d.nextOutseqno ackno flags options payload⟩) ∈ new := by
        have here := packet ▸ List.mem_singleton_self _
        obtain ⟨⟨b, x⟩, member, same⟩ := List.mem_map.mp here
        obtain ⟨member, name⟩ := List.mem_filter.mp member
        rw [decide_eq_true_eq] at name
        dsimp only at name same
        rw [← name, ← same]
        exact member
      obtain ⟨w, window, name, -, room⟩ := windows' _ entry
      obtain ⟨⟨b, protocol⟩, member, view⟩ := List.mem_map.mp window
      have room' : d.inflight.toNat + payload.length < 65536 := by
        cases protocol with
        | gpip g => cases view
        | http e =>
            cases view
            obtain rfl : b = a := name
            obtain rfl := kept.named.unique old member
            exact Nat.lt_of_le_of_lt room d.cwnd.toNat_lt
      rw [packet]
      have body : (⟨destination, .tcp port d.nextOutseqno ackno flags options payload⟩ : Packet).body
          = .tcp port d.nextOutseqno ackno flags options payload := rfl
      obtain ⟨start, inside'⟩ := inside.sending room' next inflight body rfl
      exact ⟨start, inside', open_, settled, free'⟩

/-- The events that leave the window of every connection alone, or roll it back. -/
theorem Bookkept.rolled (kept : Bookkept a t) {f : HttpConnection → HttpConnection} {s : Server}
    (connections : s.connections = t.server.connections)
    (same : ∀ c, (f c).tcpState = c.tcpState ∧ (f c).outputHandler = c.outputHandler)
    (window : ∀ c, windowStart (f c) = windowStart c ∧ ((f c).inflight = c.inflight ∨ (f c).inflight = 0))
    {c' : HttpConnection} (mem : ⟨a, .http c'⟩ ∈ (mapHttp f s).connections)
    : Kept t.acked t.top c' := by
  obtain ⟨c, old, rfl⟩ := mem_mapHttp.mp mem
  rw [connections] at old
  obtain ⟨start, inside, open_, settled, free⟩ := kept.each c old
  obtain ⟨state, handler⟩ := same c
  obtain ⟨start', inflight⟩ := window c
  refine ⟨start'.trans start, ⟨?_, ?_⟩, state ▸ open_, state ▸ settled, handler ▸ free⟩
  · rw [start']
    rcases inflight with kept | zero
    · rw [kept]
      exact inside.sent
    · rw [zero]
      exact UInt32.zero_le
  · rw [start']
    exact inside.span

theorem Bookkept.step {event : Event} (kept : Bookkept a t) (keeping : KeepingStep p a t event t') : Bookkept a t' := by
  obtain ⟨tracked, fits, segments⟩ := keeping
  have step := tracked.1
  have acked := tracked.2.1
  have named := kept.named.step step
  have given : a < t'.server.heap.next :=
    Nat.lt_of_lt_of_le kept.given (step_keeps (allocatorInv_next t.server.heap.next) step (Nat.le_refl _))
  refine ⟨named, step_peers step kept.distinct, given, fun c mem => ?_⟩
  cases event with
  | receive seg =>
      rw [tracked.top_quiet Bool.false_ne_true, acked, trackAcked]
      split
      · next own => exact kept.reached step own named (segments seg rfl own) mem
      · next other => exact kept.each c (kept.passed step other mem)
  | receiveGpIp srcAddr protocol payload =>
      rw [tracked.top_quiet Bool.false_ne_true, acked]
      exact kept.each c (smewsReceiveGpIp_http step mem)
  | send =>
      rw [tracked.2.2, acked]
      exact kept.send step (fits rfl) mem
  | retransmit =>
      rw [tracked.top_quiet Bool.false_ne_true, acked]
      rw [← Option.some.inj step] at mem
      refine kept.rolled rfl (fun d => ?_) (fun d => ?_) mem
      · unfold rollBack
        split <;> exact ⟨rfl, rfl⟩
      · unfold rollBack
        split
        · exact ⟨UInt32.sub_zero _, .inr rfl⟩
        · exact ⟨rfl, .inl rfl⟩
  | push handler =>
      rw [tracked.top_quiet Bool.false_ne_true, acked]
      rw [← Option.some.inj step] at mem
      unfold serverPush at mem
      split at mem
      · refine kept.rolled rfl (fun d => ?_) (fun d => ?_) mem
        · split <;> exact ⟨rfl, rfl⟩
        · split <;> exact ⟨rfl, .inl rfl⟩
      · exact kept.each c mem
  | packetOut protocol address =>
      rw [tracked.top_quiet Bool.false_ne_true, acked]
      rw [← Option.some.inj step] at mem
      exact kept.each c (requestPacketOutCall_http mem)

end Steps

--------------------------------------------------
-- Runs
--------------------------------------------------

theorem Initial.named {start : Server} (initial : Initial start) : Named start := by
  constructor <;> simp [names, initial.connections]

/-- On a connection that is established with nothing in flight, whatever happened before, and in every run from there on
that meets the conditions: `next_outseqno - inflight` is the highest acknowledgement number that was received, and
`next_outseqno` is not above what was sent.
-/
theorem window_kept {start s : Server} {past events : List Event} {a : Addr} {c : HttpConnection} {t : Tracking}
    (initial : Initial start) (earlier : Run (Step p) start past s) (mem : ⟨a, .http c⟩ ∈ s.connections)
    (established : c.tcpState = .established) (idle : c.inflight = 0) (free : c.outputHandler ≠ some .synack)
    (run : Run (KeepingStep p a) ⟨s, c.nextOutseqno, c.nextOutseqno⟩ events t)
    : WindowKept a t := by
  have named : Named s := earlier.invariant Named (fun named step => named.step step) initial.named
  have distinct : (peers s.connections).Nodup := by
    refine earlier.invariant (fun s => (peers s.connections).Nodup) (fun distinct step => step_peers step distinct) ?_
    rw [initial.connections]
    exact List.nodup_nil
  have begun : Kept c.nextOutseqno c.nextOutseqno c := by
    have window : windowStart c = c.nextOutseqno := by
      rw [windowStart, idle]
      exact UInt32.sub_zero _
    refine ⟨window, ⟨?_, ?_⟩, ?_, ?_, free⟩
    · rw [idle]
      exact UInt32.zero_le
    · rw [window, UInt32.sub_self]
      decide
    · rw [established]
      exact nofun
    · rw [established]
      exact nofun
  have started : Bookkept a ⟨s, c.nextOutseqno, c.nextOutseqno⟩ := by
    refine ⟨named, distinct, named.given a (List.mem_map_of_mem mem), fun d mem' => ?_⟩
    obtain rfl := named.unique mem mem'
    exact begun
  obtain ⟨-, -, -, each⟩ := run.invariant (Bookkept a) Bookkept.step started
  exact fun d mem' => ⟨(each d mem').start, (each d mem').window⟩

--------------------------------------------------
-- A response and its acknowledgement
--------------------------------------------------

/-- The state after an event, with what was acknowledged and sent. -/
def track (p : Program) (a : Addr) (t : Tracking) (event : Event) : Option Tracking :=
  (next p t.server event).map fun s =>
    {
      server := s
      acked := trackAcked a t event
      top := (sentOn a (s.sent.drop t.server.sent.length)).foldl (sentUpTo t.acked) t.top
    }

theorem TrackedStep.of_track {a : Addr} {t t' : Tracking} {event : Event} (eq : track p a t event = some t')
    : TrackedStep p a t event t' := by
  obtain ⟨s, step, rfl⟩ := Option.map_eq_some_iff.mp eq
  exact ⟨step, rfl, rfl⟩

/-- A segment at one of the ends of the window, which acknowledges nothing or carries no data. -/
def AtEnds (seg : TcpSegment) (c : HttpConnection) (top : UInt32) : Prop :=
  AckFits c top seg.ackno ∧ (seg.ackno = windowStart c ∨ seg.ackno = c.nextOutseqno)
    ∧ (seg.payload = [] ∨ acknowledgedBy (windowStart c) top seg.ackno = windowStart c)

instance (c : HttpConnection) (top ackno : UInt32) : Decidable (AckFits c top ackno) := by
  unfold AckFits
  infer_instance

instance (seg : TcpSegment) (c : HttpConnection) (top : UInt32) : Decidable (AtEnds seg c top) := by
  unfold AtEnds
  infer_instance

theorem AtEnds.keeps {seg : TcpSegment} {c : HttpConnection} {top : UInt32} (ends : AtEnds seg c top) (heap : Heap)
    : SegmentKeeps p seg c heap top := by
  obtain ⟨ack, at_, quiet⟩ := ends
  refine ⟨ack, fun _ => at_, fun given => quiet.resolve_left fun empty => ?_⟩
  have parsed := given.1
  rw [isParsed, empty] at parsed
  simp at parsed

/-- What is checked of the steps of a run. -/
def keeps (p : Program) (t : Tracking) : Event → Bool
  | .send => decide (SendFits p t.server)
  | .receive seg => t.server.connections.all fun k =>
      match k.protocol with
      | .http c => decide (AtEnds seg c t.top)
      | .gpip _ => true
  | _ => true

theorem KeepingStep.of_checked {a : Addr} {t t' : Tracking} {event : Event}
    (checked : track p a t event = some t' ∧ keeps p t event)
    : KeepingStep p a t event t' := by
  obtain ⟨step, guard⟩ := checked
  refine ⟨.of_track step, ?_, ?_⟩
  · rintro rfl
    exact of_decide_eq_true guard
  · rintro seg rfl - c mem
    exact AtEnds.keeps (of_decide_eq_true (List.all_eq_true.mp guard _ mem)) t.server.heap

/-- A client that connects, and the number that acknowledges the `SYN`. -/
def connected : List Event := (requestOf 1000).take 3

def firstByte : UInt32 := 0x42b7a492

/-- A request that is answered with 73 bytes, which are acknowledged. -/
def answeredRequest : List Event :=
  [
    .receive (clientSegment 1001 firstByte (tcpAck ||| tcpPsh) 8192 [] (ascii "GET /a HTTP/1.1\r\n\r\n") getA_fits),
    .send,
    .receive (clientSegment 1020 (firstByte + 73) tcpAck 8192 [] [] bare_fits)
  ]

/-- An acknowledgement that was overtaken. -/
def overtaken : Event := .receive (clientSegment 1001 firstByte tcpAck 8192 [] [] bare_fits)

/-- The server on which the only connection is established. -/
def settledConnection (p : Program) : Option (Server × Addr × HttpConnection) :=
  (runChecked (next p) (fun _ _ => True) connected bootServer).bind fun s =>
    match s.connections with
    | [⟨a, .http c⟩] => if c.tcpState = .established ∧ c.inflight = 0 ∧ c.outputHandler = none then some (s, a, c) else none
    | _ => none

theorem settledConnection_spec {s : Server} {a : Addr} {c : HttpConnection} (settled : settledConnection p = some (s, a, c))
    : Run (Step p) bootServer connected s ∧ ⟨a, .http c⟩ ∈ s.connections ∧ c.tcpState = .established ∧ c.inflight = 0
      ∧ c.outputHandler ≠ some .synack := by
  obtain ⟨s, past, rest⟩ := Option.bind_eq_some_iff.mp settled
  split at rest
  · next ring =>
      split at rest
      · next state =>
          obtain ⟨established, idle, free⟩ := state
          cases rest
          exact ⟨(Run.of_checked past).mono And.left, ring ▸ List.mem_singleton_self _, established, idle, free ▸ nofun⟩
      · cases rest
  · cases rest

/-- All 73 bytes are acknowledged. -/
theorem window_kept_answered
    : ∃ s a t, Run (KeepingStep (oneGenerator hello noArgs) a) ⟨s, firstByte, firstByte⟩ answeredRequest t
      ∧ t.acked = firstByte + 73 ∧ t.top = firstByte + 73 ∧ WindowKept a t := by
  have checked : ((settledConnection (oneGenerator hello noArgs)).bind fun x =>
      (runChecked (track (oneGenerator hello noArgs) x.2.1)
        (fun t event => keeps (oneGenerator hello noArgs) t event) answeredRequest ⟨x.1, firstByte, firstByte⟩).map
      fun t => (x.2.2.nextOutseqno, t.acked, t.top)) = some (firstByte, firstByte + 73, firstByte + 73) := by
    decide +kernel
  simp only [Option.bind_eq_some_iff, Option.map_eq_some_iff, Prod.mk.injEq] at checked
  obtain ⟨⟨s, a, c⟩, settled, t, run, first, acked, top⟩ := checked
  obtain ⟨past, mem, established, idle, free⟩ := settledConnection_spec settled
  have kept := (Run.of_checked run).mono KeepingStep.of_checked
  refine ⟨s, a, t, kept, acked, top, ?_⟩
  dsimp only at first kept
  rw [← first] at kept
  exact window_kept bootServer_initial past mem established idle free kept

/-- An overtaken acknowledgement moves the window back. -/
theorem overtaken_rolls_back
    : ∃ s a c t, Run (Step (oneGenerator hello noArgs)) bootServer connected s ∧ ⟨a, .http c⟩ ∈ s.connections
      ∧ c.tcpState = .established ∧ c.inflight = 0 ∧ c.outputHandler ≠ some .synack
      ∧ Run (TrackedStep (oneGenerator hello noArgs) a) ⟨s, c.nextOutseqno, c.nextOutseqno⟩
        (answeredRequest ++ [overtaken]) t
      ∧ ¬ WindowKept a t := by
  have checked : ((settledConnection (oneGenerator hello noArgs)).bind fun x =>
      (runChecked (track (oneGenerator hello noArgs) x.2.1) (fun _ _ => True) (answeredRequest ++ [overtaken])
        ⟨x.1, x.2.2.nextOutseqno, x.2.2.nextOutseqno⟩).bind
      fun t => (t.server.http 0).map fun c => (decide (t.server.connections.map Connection.addr = [x.2.1]), t.acked,
        windowStart c)) = some (true, firstByte + 73, firstByte) := by
    decide +kernel
  simp only [Option.bind_eq_some_iff, Option.map_eq_some_iff, Prod.mk.injEq, decide_eq_true_eq] at checked
  obtain ⟨⟨s, a, c⟩, settled, t, run, d, here, name, acked, start⟩ := checked
  obtain ⟨past, mem, established, idle, free⟩ := settledConnection_spec settled
  refine ⟨s, a, c, t, past, mem, established, idle, free, ?_, fun kept => ?_⟩
  · exact (Run.of_checked run).mono fun step => .of_track step.1
  · obtain ⟨b, at_0⟩ := http_eq here
    have member := List.mem_of_getElem? at_0
    have own := List.mem_map_of_mem (f := Connection.addr) member
    rw [name, List.mem_singleton] at own
    obtain rfl : b = a := own
    have same := (kept d member).1
    rw [acked, start] at same
    revert same
    decide

end Smews.System
