import Smews.Output.Framing
import Smews.Output.Responding

/-! The response of a generator from one call of `smews_send` to the next: what each call emits, and
what is left afterwards.
-/

namespace Smews.Output

open Smews.Core

variable {p : Program} {a : Addr} {h : HandlerRef} {s : Server}

--------------------------------------------------
-- The connection of a response
--------------------------------------------------

/-- The connection of an address, the only one of the ring at that address. -/
def Holds (s : Server) (a : Addr) (c : HttpConnection) : Prop :=
  s.connections.filter (·.addr = a) = [⟨a, .http c⟩]

/-- The connection that the next call of `smews_send` serves is the one of an address. -/
def Chosen (p : Program) (s : Server) (a : Addr) : Prop :=
  s.rstConnection.port = 0
    ∧ ∃ i, s.connections.findIdx? (·.ableToSend p) = some i
      ∧ s.connections[i]?.map (·.addr) = some a

/-- The payload of a packet. -/
def packetPayload (packet : Packet) : List UInt8 :=
  match packet.body with
  | .tcp _ _ _ _ _ payload => payload
  | .gpip _ payload => payload

/-- The payloads of the packets that belong to a connection. -/
def payloadsTo (a : Addr) (sent : List (Option Addr × Packet)) : List (List UInt8) :=
  (sent.filter (·.1 = some a)).map fun entry => packetPayload entry.2

/-- `max_bytes` for the first segment of a response. -/
def firstLimit (p : Program) (mss : UInt16) : Nat := (maxBytes p mss .chunks).toNat

/-- `max_bytes` for the other segments. -/
def laterLimit (p : Program) (mss : UInt16) : Nat := (maxBytes p mss .none).toNat

theorem Holds.mem {c : HttpConnection} (holds : Holds s a c) : ⟨a, .http c⟩ ∈ s.connections := by
  have : (⟨a, .http c⟩ : Connection) ∈ s.connections.filter (·.addr = a) := by
    rw [holds]
    exact List.mem_singleton_self _
  exact (List.mem_filter.mp this).1

theorem Holds.eq {c : HttpConnection} {k : Connection} (holds : Holds s a c) (mem : k ∈ s.connections)
    (at_ : k.addr = a)
    : k = ⟨a, .http c⟩ := by
  have : k ∈ s.connections.filter (·.addr = a) := List.mem_filter.mpr ⟨mem, by simp [at_]⟩
  rw [holds] at this
  exact List.mem_singleton.mp this

theorem Holds.unique {c c' : HttpConnection} (holds : Holds s a c) (holds' : Holds s a c') : c = c' := by
  have := holds.symm.trans holds'
  simpa using this

/-- The ring when the connection of a response is served. -/
theorem Chosen.smewsSend {c : HttpConnection} {resource : DynamicResource} (chosen : Chosen p s a)
    (holds : Holds s a c) (ready : c.request.readyToSend) (noAck : c.cometSendAck = false)
    (handler : c.outputHandler = some h) (generator : (p.handler h).data = .generator resource)
    : (Connection.mk a (.http c)).ableToSend p
      ∧ ∃ i before, (rotate i s).connections = before ++ [⟨a, .http c⟩]
        ∧ before.filter (·.addr = a) = []
        ∧ Output.smewsSend p s = sendGenerator p before.length h resource (rotate i s) := by
  obtain ⟨rst, i, found, addr⟩ := chosen
  obtain ⟨lt, able, -⟩ := List.findIdx?_eq_some_iff_getElem.mp found
  rw [List.getElem?_eq_getElem lt, Option.map_some, Option.some.injEq] at addr
  have own := holds.eq (List.getElem_mem lt) addr
  rw [own] at able
  have last := rotate_last (i := i) (s := s) (k := ⟨a, .http c⟩)
    (by rw [List.getElem?_eq_getElem lt, own])
  generalize s.connections.drop (i + 1) ++ s.connections.take i = before at last
  have others : before.filter (·.addr = a) = [] := by
    have perm := (rotate_perm i s).filter (·.addr = a)
    rw [last, List.filter_append, holds] at perm
    have length := perm.length_eq
    simp at length
    rw [List.filter_eq_nil_iff]
    simpa using length
  have length : (rotate i s).connections.length - 1 = before.length := by simp [last]
  have at_last : (rotate i s).connections[before.length]? = some ⟨a, .http c⟩ := by simp [last]
  have here : (rotate i s).http before.length = some c := by simp [Server.http, at_last]
  have instead : ¬ (¬ c.request.readyToSend ∨ c.cometSendAck) := by simp [ready, noAck]
  refine ⟨able, i, before, last, others, ?_⟩
  unfold Output.smewsSend
  rw [if_neg (not_not.mpr rst)]
  simp only [found, length, at_last, Option.bind_eq_bind, Option.bind_some]
  unfold sendHttp
  rw [here, Option.bind_eq_bind, Option.bind_some, if_neg instead, handler, Option.bind_eq_bind,
    Option.bind_some]
  simp only [generator]

/-- The connection of a response after it was stored into the last position of the ring. -/
theorem holds_setHttp_last {t : Server} {before : List Connection} {c : HttpConnection}
    {connection : Connection} (ring : t.connections = before ++ [connection])
    (addr : connection.addr = a) (others : before.filter (·.addr = a) = [])
    (stored : s.connections = (t.setHttp before.length c).connections)
    : Holds s a c := by
  obtain ⟨b, protocol⟩ := connection
  subst addr
  rw [Holds, stored, setHttp_last ring, List.filter_append, others]
  simp

/-- The only member of a list with a property, when it is replaced by another one with it. -/
theorem filter_modify {α : Type} {q : α → Bool} {f : α → α} {k : α} {ks : List α} {i : Nat}
    (at_i : ks[i]? = some k) (only : ks.filter q = [k]) (kept : q (f k))
    : (ks.modify i f).filter q = [f k] := by
  have holds : q k := (List.mem_filter.mp (only ▸ List.mem_singleton_self k : k ∈ ks.filter q)).2
  induction ks generalizing i with
  | nil => cases at_i
  | cons k' ks ih =>
      cases i with
      | zero =>
          rw [List.getElem?_cons_zero, Option.some.injEq] at at_i
          subst at_i
          rw [List.filter_cons_of_pos holds, List.cons_inj_right] at only
          rw [List.modify_zero_cons, List.filter_cons_of_pos kept, only]
      | succ i =>
          rw [List.getElem?_cons_succ] at at_i
          have mem : k ∈ ks.filter q := List.mem_filter.mpr ⟨List.mem_of_getElem? at_i, holds⟩
          by_cases first : q k'
          · rw [List.filter_cons_of_pos first, List.cons.injEq] at only
            rw [only.2] at mem
            cases mem
          · rw [List.filter_cons_of_neg first] at only
            rw [List.modify_succ_cons, List.filter_cons_of_neg first, ih at_i only]

theorem Holds.setHttp {i : Nat} {c : HttpConnection} (holds : Holds s a c)
    (at_i : s.connections[i]? = some ⟨a, .http c⟩) (c' : HttpConnection)
    : Holds (s.setHttp i c') a c' :=
  filter_modify at_i holds (by simp)

--------------------------------------------------
-- What is left of a response
--------------------------------------------------

/-- A request that a generator is about to answer, by the function that is left to run. -/
structure Requested (p : Program) (s : Server) (a : Addr) (h : HandlerRef) (c : HttpConnection)
    (function : Cont)
    : Prop where
  holds : Holds s a c
  handler : c.outputHandler = some h
  ready : c.request.readyToSend
  noAck : c.cometSendAck = false
  established : c.tcpState = .established
  active : c.cometPassive = false
  fresh : c.generatorService = none
  final : c.finalOutseqno = c.nextOutseqno - 1
  starts : startOutput p s.heap (serviceFunc s c h) = some function

/-- The payloads that are left of a response that began with the connection `start`, after a number
of segments.
-/
inductive Left (p : Program) (contents : List UInt8) (start c : HttpConnection) (s : Server)
    : Nat → List (List UInt8) → Prop
  /-- The generator is suspended after the first chunk and `j` other ones. -/
  | suspended (b : Addr) (j : Nat) (x : UInt8) (k : Cont) (service : c.generatorService = some b)
    (parked : Parked s.heap (.service b) .active (.outStore x k))
    (inOrder : (s.service b).currOutseqno = c.nextOutseqno)
    (header : (s.service b).serviceHeader ≠ .standard)
    (rest : x :: outputs k
      = contents.drop (firstLimit p start.tcpMss + j * laterLimit p start.tcpMss))
    (next : c.nextOutseqno = start.nextOutseqno + UInt32.ofNat (chunksLength (firstLimit p start.tcpMss)
      (laterLimit p start.tcpMss) contents.length j))
    (final : c.finalOutseqno = start.nextOutseqno - 1)
    : Left p contents start c s (j + 1) (laterPayloads (laterLimit p start.tcpMss) (x :: outputs k))
  /-- The generator has ended with the last chunk, and the void one is left. -/
  | ended (b : Addr) (j : Nat) (frame : Frame) (service : c.generatorService = some b)
    (parked : Parked s.heap (.service b) .terminated frame)
    (inOrder : (s.service b).currOutseqno = c.nextOutseqno)
    (header : (s.service b).serviceHeader ≠ .standard)
    (last : firstLimit p start.tcpMss + j * laterLimit p start.tcpMss < contents.length)
    (next : c.nextOutseqno = start.nextOutseqno + UInt32.ofNat (chunksLength (firstLimit p start.tcpMss)
      (laterLimit p start.tcpMss) contents.length (j + 1)))
    (final : c.finalOutseqno = start.nextOutseqno - 1)
    : Left p contents start c s (j + 2) (laterPayloads (laterLimit p start.tcpMss) [])
  | complete (n : Nat) (final : c.finalOutseqno = c.nextOutseqno) : Left p contents start c s n []

/-- What stays the same of a connection while it is sent a response. -/
structure SameRequest (start c : HttpConnection) : Prop where
  ipAddr : c.ipAddr = start.ipAddr
  port : c.port = start.port
  outputHandler : c.outputHandler = start.outputHandler
  tcpMss : c.tcpMss = start.tcpMss
  tcpState : c.tcpState = start.tcpState
  cometSendAck : c.cometSendAck = start.cometSendAck
  cometPassive : c.cometPassive = start.cometPassive
  ready : c.request.readyToSend = start.request.readyToSend

theorem SameRequest.trans {start c c' : HttpConnection} (first : SameRequest start c)
    (second : SameRequest c c')
    : SameRequest start c' :=
  ⟨
    second.ipAddr.trans first.ipAddr, second.port.trans first.port,
    second.outputHandler.trans first.outputHandler, second.tcpMss.trans first.tcpMss,
    second.tcpState.trans first.tcpState, second.cometSendAck.trans first.cometSendAck,
    second.cometPassive.trans first.cometPassive, second.ready.trans first.ready
  ⟩

/-- The segment number `n` of a response, and what it leaves. -/
structure SegmentSent (p : Program) (a : Addr) (contents : List UInt8) (start c : HttpConnection)
    (n : Nat) (payload : List UInt8) (left : List (List UInt8)) (s s' : Server)
    : Prop where
  exhausted : s'.heap.exhausted = s.heap.exhausted
  rst : s'.rstConnection = s.rstConnection
  length : s'.connections.length = s.connections.length
  sent : ∃ packet, packetPayload packet = payload ∧ s'.sent = s.sent ++ [(some a, packet)]
  connection : ∃ c', Holds s' a c' ∧ SameRequest c c' ∧ Left p contents start c' s' n left

--------------------------------------------------
-- One segment
--------------------------------------------------

/-- The limits are those that `MIN` takes, when the header of a first chunk leaves room. -/
theorem limits_pos {mss : UInt16} (room : serviceHeadersSize .chunks < p.maxOutSize mss)
    : 0 < firstLimit p mss ∧ 0 < laterLimit p mss := by
  have buffer : 0 < p.outputBufferSize.toNat := UInt16.lt_iff_toNat_lt.mp p.outputBufferSize_pos
  have smaller : serviceHeadersSize .none ≤ serviceHeadersSize .chunks := by decide
  rw [firstLimit, laterLimit, maxBytes_eq p room.le, maxBytes_eq p (smaller.trans room.le)]
  omega

theorem setHttp_setHttp (t : Server) (i : Nat) (c c' : HttpConnection)
    : ((t.setHttp i c).setHttp i c').connections = (t.setHttp i c').connections := by
  simp only [Server.setHttp, List.modify_modify_eq]
  rfl

/-- What a segment leaves, once it is known how the connection and its service stand. -/
theorem Responded.segmentSent {b : Addr} {contents : List UInt8} {start c d : HttpConnection}
    {header : ServiceHeader} {frame : Option Frame} {bytes : List UInt8} {i : Nat} {t s' : Server}
    {before : List Connection} {left : List (List UInt8)} {n : Nat}
    (responded : Responded p before.length a b h d header frame bytes t s')
    (last : (rotate i s).connections = before ++ [⟨a, .http c⟩])
    (others : before.filter (·.addr = a) = [])
    (exhausted : t.heap.exhausted = s.heap.exhausted) (rst : t.rstConnection = s.rstConnection)
    (sent : t.sent = s.sent)
    (ring : ∀ x, (t.setHttp before.length x).connections
      = ((rotate i s).setHttp before.length x).connections)
    (same : SameRequest c d)
    (leaves : ∀ time request, Left p contents start
      { afterSegment d (generatorPayload header bytes).length (header = .standard || bytes.isEmpty) with
        transmissionTime := time
        request } s' n left)
    : SegmentSent p a contents start c n (generatorPayload header bytes) left s s' := by
  obtain ⟨time, request, ready, stored⟩ := responded.ring
  rw [ring] at stored
  refine {
    exhausted := responded.exhausted.trans exhausted
    rst := responded.rst.trans rst
    length := ?_
    sent := ⟨_, rfl, responded.sent.trans (by rw [sent])⟩
    connection := ⟨_, holds_setHttp_last last rfl others stored, ?_, leaves time request⟩
  }
  · rw [stored, Server.setHttp, List.length_modify]
    exact (rotate_perm i s).length_eq
  · exact ⟨same.ipAddr, same.port, same.outputHandler, same.tcpMss, same.tcpState, same.cometSendAck, same.cometPassive,
      ready.trans same.ready⟩

variable {resource : DynamicResource} {start c : HttpConnection} {function : Cont}

/-- A response begins with its first segment. -/
theorem Requested.first (requested : Requested p s a h c function) (plenty : Plentiful s.heap)
    (generator : (p.handler h).data = .generator resource)
    (noComet : (p.handler h).handlerComet = false) (noStream : (p.handler h).handlerStream = false)
    (room : serviceHeadersSize .chunks < p.maxOutSize c.tcpMss) (chosen : Chosen p s a)
    : ∃ s' payload left, smewsSend p s = some s'
      ∧ responsePayloads (firstLimit p c.tcpMss) (laterLimit p c.tcpMss) (outputs function)
        = payload :: left
      ∧ SegmentSent p a (outputs function) c c 1 payload left s s' := by
  have positive := (limits_pos room).1
  obtain ⟨-, i, before, last, others, call⟩ := chosen.smewsSend requested.holds requested.ready
    requested.noAck requested.handler generator
  have here : (rotate i s).http before.length = some c := by simp [Server.http, last]
  set t := (rotate i s).setOutput { (rotate i s).currOutput with
    maxBytes := maxBytes p c.tcpMss .none } with t_eq
  obtain ⟨b, t1, create, opened⟩ := createService_plenty (p := p) (s := t) resource
    plenty here noComet
  set d := withService p b h c with d_eq
  have created : openService p before.length c h resource (rotate i s) = (some b, t1) := by
    rw [openService, requested.fresh]
    exact create
  have at_last : t1.connections[before.length]? = some ⟨a, .http d⟩ := by
    rw [opened.connections, setHttp_last (s := t) last d]
    simp
  have header : (t1.service b).serviceHeader = .standard := by
    rw [opened.created.header, noStream]
    rfl
  have plenty1 : Plentiful t1.heap := by
    intro n
    rw [opened.exhausted]
    exact plenty n
  have upcoming := opened.upcoming (k := function) requested.starts
  set m := maxBytes p c.tcpMss .chunks with m_eq
  have ring (x : HttpConnection) : (t1.setHttp before.length x).connections
      = ((rotate i s).setHttp before.length x).connections := by
    have stored : (t1.setHttp before.length x).connections
        = ((t.setHttp before.length d).setHttp before.length x).connections := by
      simp only [Server.setHttp, opened.connections, d_eq]
    rw [stored, setHttp_setHttp]
    rfl
  have send {frame : Option Frame} {bytes : List UInt8} (run : produce m function [] = (frame, bytes))
      (fits : bytes.length < 65536)
      : ∃ s', smewsSend p s = some s' ∧ Responded p before.length a b h d
        (selectHeader false frame.isNone .standard) frame bytes t1 s' := by
    rw [run] at upcoming
    obtain ⟨s', sent, responded⟩ := sendService_next (h := h) plenty1 at_last requested.handler
      generator noComet noStream (.run frame bytes upcoming) opened.created.next fits
    rw [header] at responded
    refine ⟨s', ?_, responded⟩
    rw [call, sendGenerator_eq here, created]
    exact sent
  have same : SameRequest c d := ⟨rfl, rfl, rfl, rfl, rfl, rfl, rfl, rfl⟩
  have limit : firstLimit p c.tcpMss = m.toNat := rfl
  have m_lt := m.toNat_lt
  by_cases short : (outputs function).length ≤ m.toNat
  · have run := produce_stores (m := m) function [] (by simpa using short)
    obtain ⟨s', sent, responded⟩ := send run (by simp; omega)
    refine ⟨s', _, [], sent, by rw [responsePayloads, limit, if_pos short]; rfl,
      responded.segmentSent last others opened.exhausted opened.rst opened.created.sent ring same
        fun time request => .complete _ rfl⟩
  · obtain ⟨x, k, run, rest⟩ := produce_suspends (m := m) function [] (Nat.zero_le _)
      (by simp only [List.length_nil]; omega)
    rw [List.nil_append, List.length_nil, Nat.sub_zero] at run
    rw [List.length_nil, Nat.sub_zero] at rest
    have length : ((outputs function).take m.toNat).length = m.toNat := by
      rw [List.length_take]
      omega
    obtain ⟨s', sent, responded⟩ := send run (by omega)
    obtain ⟨f, parked, same_f⟩ := responded.parked
    have frame := same_f _ rfl
    subst frame
    have unended : ((outputs function).take m.toNat).isEmpty = false := by
      rw [List.isEmpty_eq_false_iff]
      intro empty
      rw [empty, List.length_nil] at length
      omega
    refine ⟨s', _, _, sent, by rw [responsePayloads, limit, if_neg short, ← rest]; rfl,
      responded.segmentSent last others opened.exhausted opened.rst opened.created.sent ring same
        fun time request => ?_⟩
    refine .suspended b 0 x k rfl parked responded.currOutseqno ?_ ?_ ?_ ?_
    · rw [responded.header_eq]
      exact ServiceHeader.noConfusion
    · rw [rest, limit, Nat.zero_mul, Nat.add_zero]
    · have total : (generatorPayload (selectHeader false false .standard)
          ((outputs function).take m.toNat)).length
          = chunksLength (firstLimit p c.tcpMss) (laterLimit p c.tcpMss) (outputs function).length 0 := by
        rw [length_generatorPayload, length, chunksLength, limit]
        simp only [selectHeader, Bool.not_false, Bool.true_or, if_true]
        omega
      rw [← total]
      rfl
    · simp only [afterSegment, unended]
      rfl

/-- A chunk more. -/
theorem chunksLength_succ {first later length j n : Nat} (before : first + j * later < length)
    (after : min length (first + (j + 1) * later) = first + j * later + n)
    : chunksLength first later length (j + 1)
      = chunksLength first later length j + (n + serviceHeadersSize .none) := by
  rw [chunksLength, chunksLength, after, Nat.add_mul]
  omega

/-- A connection is not chosen when its response is complete. -/
theorem not_ableToSend_of_final (handler : c.outputHandler = some h)
    (generator : (p.handler h).data = .generator resource) (noAck : c.cometSendAck = false)
    (final : c.finalOutseqno = c.nextOutseqno)
    : (Connection.mk a (.http c)).ableToSend p = false := by
  have notControl : p.isControl h = false := by simp [Program.isControl, generator]
  simp [Connection.ableToSend, HttpConnection.somethingToSend, handler, notControl, noAck, final]

/-- A response of which nothing is left is complete. -/
theorem Left.final_of_nil {contents : List UInt8} {n : Nat} (left : Left p contents start c s n [])
    : c.finalOutseqno = c.nextOutseqno := by
  generalize none : ([] : List (List UInt8)) = payloads at left
  cases left with
  | complete n final => exact final
  | suspended => exact absurd none.symm (laterPayloads_ne_nil _ _)
  | ended => exact absurd none.symm (laterPayloads_ne_nil _ _)

/-- A response goes on with its next segment. -/
theorem Left.next {contents : List UInt8} {payloads : List (List UInt8)} {n : Nat}
    (left : Left p contents start c s n payloads) (holds : Holds s a c) (mss : c.tcpMss = start.tcpMss)
    (handler : c.outputHandler = some h) (ready : c.request.readyToSend)
    (noAck : c.cometSendAck = false) (plenty : Plentiful s.heap)
    (generator : (p.handler h).data = .generator resource)
    (noComet : (p.handler h).handlerComet = false) (noStream : (p.handler h).handlerStream = false)
    (room : serviceHeadersSize .chunks < p.maxOutSize start.tcpMss) (chosen : Chosen p s a)
    : ∃ s' payload rest, smewsSend p s = some s' ∧ payloads = payload :: rest
      ∧ SegmentSent p a contents start c (n + 1) payload rest s s' := by
  have positive := (limits_pos room).2
  obtain ⟨able, i, before, last, others, call⟩ := chosen.smewsSend holds ready noAck handler generator
  have here : (rotate i s).http before.length = some c := by simp [Server.http, last]
  set m := maxBytes p c.tcpMss .none with m_eq
  set t := (rotate i s).setOutput { (rotate i s).currOutput with maxBytes := m } with t_eq
  have at_last : t.connections[before.length]? = some ⟨a, .http c⟩ := by
    rw [show t.connections = before ++ [⟨a, .http c⟩] from last]
    simp
  have limit : laterLimit p start.tcpMss = m.toNat := by rw [laterLimit, ← mss]
  have m_lt := m.toNat_lt
  have same : SameRequest c c := ⟨rfl, rfl, rfl, rfl, rfl, rfl, rfl, rfl⟩
  have send {b : Addr} {frame : Option Frame} {bytes : List UInt8}
      (service : c.generatorService = some b) (inOrder : (s.service b).currOutseqno = c.nextOutseqno)
      (header : (s.service b).serviceHeader ≠ .standard) (next : NextContent p t b c frame bytes)
      (fits : bytes.length < 65536)
      : ∃ s', smewsSend p s = some s'
        ∧ Responded p before.length a b h c .none frame bytes t s' := by
    obtain ⟨s', sent, responded⟩ := sendService_next (h := h) (s := t) plenty at_last handler generator
      noComet noStream next inOrder fits
    have form : selectHeader false frame.isNone (t.service b).serviceHeader = .none := by
      have : (t.service b).serviceHeader ≠ .standard := header
      cases service_header : (t.service b).serviceHeader with
      | standard => exact absurd service_header this
      | chunks => rfl
      | none => rfl
    rw [form] at responded
    refine ⟨s', ?_, responded⟩
    rw [call, sendGenerator_eq here, openService, service]
    exact sent
  cases left with
  | complete n final =>
      rw [not_ableToSend_of_final handler generator noAck final] at able
      cases able
  | ended b j frame service parked inOrder header within next final =>
      obtain ⟨s', sent, responded⟩ := send service inOrder header (.void frame parked) (by decide)
      refine ⟨s', _, [], sent, laterPayloads_nil _,
        responded.segmentSent last others rfl rfl rfl (fun _ => rfl) same fun time request => ?_⟩
      exact .complete _ rfl
  | suspended b j x k service parked inOrder header rest next final =>
      rw [limit] at rest next
      set first := firstLimit p start.tcpMss
      have length := congrArg List.length rest
      rw [List.length_cons, List.length_drop] at length
      have within : first + j * m.toNat < contents.length := by omega
      have succ : first + (j + 1) * m.toNat = first + j * m.toNat + m.toNat := by
        rw [Nat.add_mul, Nat.one_mul, Nat.add_assoc]
      by_cases short : (x :: outputs k).length ≤ m.toNat
      · have run := produce_stores (m := m) k [x] (by
          simp only [List.length_cons, List.length_nil] at short ⊢
          omega)
        have upcoming : Upcoming p t b (isPostOut t c) m none (x :: outputs k) := by
          have resumed : Upcoming p t b (isPostOut t c) m _ _ := .resume x k parked
          rwa [run] at resumed
        obtain ⟨s', sent, responded⟩ := send service inOrder header (.run none _ upcoming) (by omega)
        obtain ⟨f, parked', -⟩ := responded.parked
        have total := chunksLength_succ (n := (x :: outputs k).length) within (by
          rw [succ, List.length_cons]
          rw [List.length_cons] at short
          omega)
        refine ⟨s', _, laterPayloads (laterLimit p start.tcpMss) [], sent, ?_,
          responded.segmentSent last others rfl rfl rfl (fun _ => rfl) same fun time request => ?_⟩
        · rw [limit, laterPayloads_cons (List.cons_ne_nil _ _) (limit ▸ positive),
            List.take_of_length_le short, List.drop_of_length_le short]
        · refine .ended b j f service parked' responded.currOutseqno ?_ ?_ ?_ final
          · rw [responded.header_eq]
            exact ServiceHeader.noConfusion
          · rw [limit]
            exact within
          · rw [limit, total, UInt32.ofNat_add, ← UInt32.add_assoc, ← next, ← length_generatorPayload]
            rfl
      · rw [List.length_cons] at short
        obtain ⟨y, k', run, rest'⟩ := produce_suspends (m := m) k [x]
          (by simp only [List.length_cons, List.length_nil]; omega)
          (by simp only [List.length_cons, List.length_nil]; omega)
        rw [List.length_cons, List.length_nil, Nat.zero_add] at run rest'
        obtain ⟨n, cut⟩ : ∃ n, m.toNat = n + 1 := ⟨m.toNat - 1, by omega⟩
        have taken : [x] ++ (outputs k).take (m.toNat - 1) = (x :: outputs k).take m.toNat := by
          rw [cut, Nat.add_sub_cancel, List.take_succ_cons, List.singleton_append]
        have dropped : (outputs k).drop (m.toNat - 1) = (x :: outputs k).drop m.toNat := by
          rw [cut, Nat.add_sub_cancel, List.drop_succ_cons]
        rw [taken] at run
        rw [dropped] at rest'
        have size : ((x :: outputs k).take m.toNat).length = m.toNat := by
          rw [List.length_take, List.length_cons]
          omega
        have upcoming : Upcoming p t b (isPostOut t c) m (some (.outStore y k'))
            ((x :: outputs k).take m.toNat) := by
          have resumed : Upcoming p t b (isPostOut t c) m _ _ := .resume x k parked
          rwa [run] at resumed
        obtain ⟨s', sent, responded⟩ := send service inOrder header (.run _ _ upcoming) (by omega)
        obtain ⟨f, parked', same_f⟩ := responded.parked
        have frame := same_f _ rfl
        subst frame
        have total := chunksLength_succ (n := m.toNat) within (by
          rw [succ]
          omega)
        have unended : ((x :: outputs k).take m.toNat).isEmpty = false := by
          rw [cut, List.take_succ_cons]
          rfl
        refine ⟨s', _, laterPayloads (laterLimit p start.tcpMss) (y :: outputs k'), sent, ?_,
          responded.segmentSent last others rfl rfl rfl (fun _ => rfl) same fun time request => ?_⟩
        · rw [limit, laterPayloads_cons (List.cons_ne_nil _ _) (by omega), rest']
        · refine .suspended b (j + 1) y k' service parked' responded.currOutseqno ?_ ?_ ?_ ?_
          · rw [responded.header_eq]
            exact ServiceHeader.noConfusion
          · rw [rest', rest, limit, List.drop_drop, succ]
          · rw [limit, total, UInt32.ofNat_add, ← UInt32.add_assoc, ← next]
            simp only [afterSegment, length_generatorPayload, size]
          · simp only [afterSegment, unended]
            exact final

end Smews.Output
