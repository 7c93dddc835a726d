import Smews.Apps.Icmp4
import Smews.System.PacketExchange

/-! Echo requests and their replies: the request is kept in static variables from its arrival to its
reply.
-/

namespace Smews.System

open Smews.Core Input Output Runs Apps OnesComplement

variable {p : Program} {h : HandlerRef}

--------------------------------------------------
-- The property
--------------------------------------------------

/-- A build that answers the packets of protocol 1 with `icmpv4.c`. -/
structure RunsIcmp4 (p : Program) (h : HandlerRef) : Prop where
  data : (p.handler h).data = .generalIp (icmp4 p.outputBufferSize h)
  handler : p.gpIpGetOutputHandler 1 = some h

/-- Every reply that a step emits goes to the peer whose request came with this connection, and echoes
this request.
-/
def Echoes (h : HandlerRef) (s s' : Server) : Prop :=
  ∀ info, s'.packetCalls = s.packetCalls ++ [.packetOut h info] →
    ∃ arrived request content, .packetIn h arrived request 1 ∈ s.packetCalls
      ∧ arrived.connection = info.connection
      ∧ s'.sent = s.sent ++ [(some arrived.connection,
          { destination := arrived.remoteIp, body := .gpip arrived.protocol content })]
      ∧ EchoReply request content

def EchoStep (p : Program) (h : HandlerRef) (s : Server) (event : Event) (s' : Server) : Prop :=
  Step p s event s' ∧ Echoes h s s'

/-- An echo request that fits the output buffer. -/
structure EchoRequest (p : Program) (packet : List UInt8) : Prop where
  type : packet.getD 0 0 = icmpEchoRequest
  full : icmpHeaderSize ≤ packet.length
  fits : packet.length ≤ (gpIpMaxBytes p).toNat

/-- The condition on a packet of protocol 1 that arrives: a request that gets a connection finds no
other one that waits for its reply, and has code 0 when its checksum is valid.
-/
structure ArrivesAlone (p : Program) (h : HandlerRef) (s : Server) (packet : List UInt8) : Prop where
  alone : waiting h s = []
  code : sum packet = 0xffff → packet.getD 1 0 = 0

/-- The condition on a step: replies are sent to requests only, requests fit the output buffer, and
one of them is treated at a time.
-/
def OneAtATime (p : Program) (h : HandlerRef) (s : Server) : Event → Prop
  | .receiveGpIp _ protocol packet =>
      protocol = 1 → packet.getD 0 0 = icmpEchoRequest →
        EchoRequest p packet
        ∧ ((s.heap.memAlloc p.sizeofConnection).1.isSome → ArrivesAlone p h s packet)
  | .packetOut protocol _ => protocol ≠ 1
  | _ => True

def OneAtATimeStep (p : Program) (h : HandlerRef) (s : Server) (event : Event) (s' : Server) : Prop :=
  Step p s event s' ∧ OneAtATime p h s event

--------------------------------------------------
-- The invariant
--------------------------------------------------

/-- At most one request waits for its reply, and the static variables hold it. -/
inductive Held (p : Program) (h : HandlerRef) (s : Server) : Prop
  | idle (none : waiting h s = [])
  | busy (info : ConnectionInfo) (request : List UInt8)
    (one : waiting h s = [(h, { info with sendCode := 1 })])
    (call : .packetIn h info request 1 ∈ s.packetCalls)
    (stores : (icmp4At p.outputBufferSize h s.packetCalls).Stores request)
    (echo : EchoRequest p request) (valid : sum request = 0xffff) (code : request.getD 1 0 = 0)

section Steps

variable {s s' : Server}

theorem Held.of_noExchange (held : Held p h s) (same : NoExchange s s') : Held p h s' := by
  obtain ⟨calls, ring⟩ := same
  have ring := waiting_perm (h := h) ring
  cases held with
  | idle none => exact .idle (none ▸ ring).eq_nil
  | busy info request one call stores echo valid code =>
      rw [← calls] at call stores
      exact .busy info request (one ▸ ring).eq_singleton call stores echo valid code

/-- A call of another handler. -/
theorem Held.of_other {call : PacketCall} (held : Held p h s)
    (calls : s'.packetCalls = s.packetCalls ++ [call])
    (other : ∀ st, icmp4After h st call = st) (ring : (waiting h s').Perm (waiting h s))
    : Held p h s' := by
  have kept : icmp4At p.outputBufferSize h s'.packetCalls = icmp4At p.outputBufferSize h s.packetCalls := by
    rw [calls, icmp4At_other (other _)]
  cases held with
  | idle none => exact .idle (none ▸ ring).eq_nil
  | busy info request one arrived stores echo valid code =>
      rw [← kept] at stores
      exact .busy info request (one ▸ ring).eq_singleton
        (calls ▸ List.mem_append_left _ arrived) stores echo valid code

/-- A packet arrives. -/
theorem Held.receive {srcAddr : UInt32} {protocol : UInt8} {packet : List UInt8} (held : Held p h s)
    (runs : RunsIcmp4 p h) (alone : OneAtATime p h s (.receiveGpIp srcAddr protocol packet))
    (step : smewsReceiveGpIp p srcAddr protocol packet s = some s')
    : Held p h s' := by
  cases smewsReceiveGpIp_receives step with
  | unknown _ same =>
      rw [same]
      exact held
  | exhausted heap _ same =>
      rw [same]
      exact held.of_noExchange ⟨rfl, .refl _⟩
  | dropped h' g a heap handler data alloc code same =>
      subst same
      by_cases own : h' = h ∧ packet.getD 0 0 = icmpEchoRequest
      · -- the variables are lost, but no request waits for them
        obtain ⟨rfl, type⟩ := own
        have eq : icmp4 p.outputBufferSize h' = g := HandlerData.generalIp.inj (runs.data.symm.trans data)
        have registered : g.protocol = protocol := handler_protocol handler data
        rw [← eq] at registered
        have condition := (alone registered.symm type).2 (by rw [alloc]; rfl)
        exact .idle condition.alone
      · have kept (st : Icmp4)
            : icmp4After h st (.packetIn h' (gpIpInfo p h' srcAddr protocol packet a) packet 0) = st := ?_
        · exact held.of_other rfl kept (.refl _)
        rw [icmp4After]
        split_ifs with same
        · rw [icmp4PacketIn_other fun type => own ⟨same, type⟩]
        · rfl
  | accepted h' g a heap code handler data alloc returned nonzero same =>
      have waits : awaited s' = awaited s
          ++ [(h', { gpIpInfo p h' srcAddr protocol packet a with sendCode := code })] := by
        rw [same]
        exact List.filterMap_append ..
      have calls : s'.packetCalls = s.packetCalls
          ++ [.packetIn h' (gpIpInfo p h' srcAddr protocol packet a) packet code] := by
        rw [same]
      by_cases own : h' = h
      · subst own
        have eq : icmp4 p.outputBufferSize h' = g := HandlerData.generalIp.inj (runs.data.symm.trans data)
        have registered : g.protocol = protocol := handler_protocol handler data
        rw [← eq] at registered returned
        have type : packet.getD 0 0 = icmpEchoRequest := by
          by_contra other
          exact nonzero (returned.symm.trans (congrArg Prod.fst (icmp4PacketIn_other other)))
        obtain ⟨echo, condition⟩ := alone registered.symm type
        have condition := condition (by rw [alloc]; rfl)
        have small : packet.length < 65536 := echo.fits.trans_lt (gpIpMaxBytes p).toNat_lt
        have request (st : Icmp4)
            : (icmp4PacketIn (UInt16.ofNat packet.length) packet st).2.Stores packet
              ∧ (icmp4PacketIn (UInt16.ofNat packet.length) packet st).1
                = if sum packet = 0xffff then 1 else 0 :=
          icmp4PacketIn_request type echo.full small
        obtain ⟨stores, accepts⟩ := request (icmp4At p.outputBufferSize h' s.packetCalls)
        have accepts : code = if sum packet = 0xffff then 1 else 0 := returned.symm.trans accepts
        split_ifs at accepts with valid
        swap
        · exact absurd accepts nonzero
        subst accepts
        refine .busy (gpIpInfo p h' srcAddr protocol packet a) packet ?_
          (calls ▸ List.mem_append_right _ List.mem_cons_self) ?_ echo valid (condition.code valid)
        · have none := condition.alone
          rw [waiting] at none
          rw [waiting, waits, List.filter_append, none]
          simp
        · rw [calls, icmp4At_in]
          exact stores
      · refine held.of_other calls (fun st => if_neg own) ?_
        have none : [(h', { gpIpInfo p h' srcAddr protocol packet a with sendCode := code })].filter
            (·.1 = h) = [] := by
          simp [own]
        rw [waiting, waits, List.filter_append, none, List.append_nil]
        exact .refl _

/-- A reply is sent. -/
theorem Held.send (held : Held p h s) (runs : RunsIcmp4 p h) (send : smewsSend p s = some s')
    : Held p h s' ∧ Echoes h s s' := by
  have none (same : NoExchange s s') : Held p h s' ∧ Echoes h s s' := by
    refine ⟨held.of_noExchange same, fun info calls => ?_⟩
    rw [same.1] at calls
    exact absurd (congrArg List.length calls) (by simp)
  rcases smewsSend_answers send with ⟨i, before, a, c, -, -, ring, answered⟩ | same
  swap
  · exact none same
  have left := (answered_perm ring answered).filter (·.1 = h)
  have calls : s'.packetCalls = s.packetCalls ++ [.packetOut c.outputHandler (c.info a)] :=
    answered.calls
  obtain ⟨g, data, sent⟩ := answered.sent
  by_cases own : c.outputHandler = h
  · -- the request that waits is the one that is answered
    subst own
    cases held with
    | idle none =>
        rw [waiting] at none
        rw [none, List.filter_cons_of_pos (by simp)] at left
        cases left.symm.eq_nil
    | busy info request one call stores echo valid code =>
        rw [waiting] at one
        rw [one, List.filter_cons_of_pos (by simp)] at left
        have eq := left.symm.eq_singleton
        rw [List.cons.injEq, Prod.mk.injEq] at eq
        obtain ⟨⟨-, own⟩, rest⟩ := eq
        refine ⟨.idle rest, fun info' calls' => ?_⟩
        rw [calls, List.append_cancel_left_eq, List.cons.injEq, PacketCall.packetOut.injEq] at calls'
        obtain ⟨⟨-, rfl⟩, -⟩ := calls'
        have eq : icmp4 p.outputBufferSize c.outputHandler = g :=
          HandlerData.generalIp.inj (runs.data.symm.trans data)
        subst eq
        have reply := stores.reply echo.type echo.full code valid
        have fits : (icmp4PacketOut (icmp4At p.outputBufferSize c.outputHandler s.packetCalls)).1.take
            (gpIpMaxBytes p).toNat
            = (icmp4PacketOut (icmp4At p.outputBufferSize c.outputHandler s.packetCalls)).1 :=
          List.take_of_length_le (reply.length echo.full ▸ echo.fits)
        have ip : info.remoteIp = c.ipAddr := congrArg ConnectionInfo.remoteIp own.symm
        have protocol : info.protocol = c.protocol := congrArg ConnectionInfo.protocol own.symm
        have connection : info.connection = a := congrArg ConnectionInfo.connection own.symm
        refine ⟨info, request, _, call, connection, ?_, reply⟩
        rw [ip, protocol, connection]
        exact sent.trans (congrArg _ (by rw [← fits]; rfl))
  · refine ⟨held.of_other calls (fun st => if_neg own) ?_, fun info calls' => ?_⟩
    · rw [List.filter_cons_of_neg (by simpa using own)] at left
      exact left.symm
    · rw [calls, List.append_cancel_left_eq, List.cons.injEq, PacketCall.packetOut.injEq] at calls'
      exact absurd calls'.1.1 own

/-- An application asks for a packet of another protocol. -/
theorem Held.request {protocol : UInt8} {address : UInt32} (held : Held p h s)
    (runs : RunsIcmp4 p h) (other : protocol ≠ 1)
    : Held p h (requestPacketOutCall p protocol address s) := by
  have calls := (requestPacketOutCall_unheard (p := p) protocol address s).packetCalls
  have ring : waiting h (requestPacketOutCall p protocol address s) = waiting h s :=
    requestPacketOutCall_waiting fun handler => other (handler_protocol handler runs.data).symm
  cases held with
  | idle none => exact .idle (ring.trans none)
  | busy info request one call stores echo valid code =>
      rw [← calls] at call stores
      exact .busy info request (ring.trans one) call stores echo valid code

/-- A step that treats one request at a time. -/
theorem Held.step {event : Event} (held : Held p h s) (runs : RunsIcmp4 p h)
    (step : OneAtATimeStep p h s event s')
    : Held p h s' ∧ EchoStep p h s event s' := by
  obtain ⟨step, alone⟩ := step
  have other (same : NoExchange s s') : Held p h s' ∧ EchoStep p h s event s' := by
    refine ⟨held.of_noExchange same, step, fun info calls => ?_⟩
    rw [same.1] at calls
    exact absurd (congrArg List.length calls) (by simp)
  cases event with
  | receiveGpIp srcAddr protocol packet =>
      refine ⟨held.receive runs alone step, step, fun info calls => ?_⟩
      have single (call : PacketCall) (eq : s'.packetCalls = s.packetCalls ++ [call])
          : call = .packetOut h info := by
        rw [calls, List.append_cancel_left_eq, List.cons.injEq] at eq
        exact eq.1.symm
      have none (eq : s'.packetCalls = s.packetCalls) : False := by
        rw [calls] at eq
        exact absurd (congrArg List.length eq) (by simp)
      cases smewsReceiveGpIp_receives step with
      | unknown _ same => exact (none (by rw [same])).elim
      | exhausted heap _ same => exact (none (by rw [same])).elim
      | dropped h' g a heap _ _ _ _ same => cases single _ (by rw [same])
      | accepted h' g a heap code _ _ _ _ _ same => cases single _ (by rw [same])
  | send =>
      obtain ⟨held, echoes⟩ := held.send runs step
      exact ⟨held, step, echoes⟩
  | packetOut protocol address =>
      cases step
      have calls := (requestPacketOutCall_unheard (p := p) protocol address s).packetCalls
      refine ⟨held.request runs alone, rfl, fun info calls' => ?_⟩
      rw [calls] at calls'
      exact absurd (congrArg List.length calls') (by simp)
  | receive seg => exact other (step_exchanges step (by simp [Event.isRequest])).2
  | retransmit => exact other (step_exchanges step (by decide)).2
  | push handler => exact other (step_exchanges step (by simp [Event.isRequest])).2

end Steps

--------------------------------------------------
-- Runs
--------------------------------------------------

/-- A run that treats one request at a time, by induction on the run. -/
theorem Held.run {s s' : Server} {events : List Event} (held : Held p h s) (runs : RunsIcmp4 p h)
    (run : Run (OneAtATimeStep p h) s events s')
    : Run (EchoStep p h) s events s' := by
  induction run with
  | nil s => exact .nil s
  | cons step _ ih =>
      obtain ⟨held, echoes⟩ := held.step runs step
      exact .cons echoes (ih held)

/-- In every run after `smews_init` that treats one request of code 0 at a time, each reply goes to the
peer whose request it answers and echoes this request.
-/
theorem echo_replies {s s' : Server} {events : List Event} (runs : RunsIcmp4 p h) (start : Initial s)
    (run : Run (OneAtATimeStep p h) s events s')
    : Run (EchoStep p h) s events s' := by
  have idle : waiting h s = [] := by
    rw [waiting, awaited, start.connections]
    rfl
  exact (Held.idle idle).run runs run

/-- A build whose only application is `icmpv4.c`. -/
def echoPage : Program :=
  let page := oneGenerator hello noArgs
  {
    page with
    resource := fun _ => .plain (.generalIp (icmp4 page.outputBufferSize (.resource 0)))
    resource_ne_control := fun _ _ _ => HandlerData.noConfusion
  }

theorem echoPage_runs : RunsIcmp4 echoPage (.resource 0) := ⟨rfl, rfl⟩

/-- A request with two bytes of data. -/
def firstRequest : List UInt8 := [8, 0, 0x84, 0x68, 0x12, 0x34, 0, 1, 0x61, 0x62]

/-- A request without data. -/
def secondRequest : List UInt8 := [8, 0, 0xf7, 0xf3, 0, 5, 0, 7]

instance (packet : List UInt8) : Decidable (EchoRequest p packet) :=
  decidable_of_iff
    (packet.getD 0 0 = icmpEchoRequest ∧ icmpHeaderSize ≤ packet.length
      ∧ packet.length ≤ (gpIpMaxBytes p).toNat)
    ⟨fun ⟨type, full, fits⟩ => ⟨type, full, fits⟩, fun echo => ⟨echo.type, echo.full, echo.fits⟩⟩

instance (s : Server) (packet : List UInt8) : Decidable (ArrivesAlone p h s packet) :=
  decidable_of_iff (waiting h s = [] ∧ (sum packet = 0xffff → packet.getD 1 0 = 0))
    ⟨fun ⟨alone, code⟩ => ⟨alone, code⟩, fun arrives => ⟨arrives.alone, arrives.code⟩⟩

instance (s : Server) : (event : Event) → Decidable (OneAtATime p h s event)
  | .receiveGpIp _ protocol packet =>
      inferInstanceAs (Decidable (protocol = 1 → packet.getD 0 0 = icmpEchoRequest →
        EchoRequest p packet
        ∧ ((s.heap.memAlloc p.sizeofConnection).1.isSome → ArrivesAlone p h s packet)))
  | .packetOut protocol _ => inferInstanceAs (Decidable (protocol ≠ 1))
  | .receive _ | .send | .retransmit | .push _ => .isTrue trivial

/-- The replies among the packets that were emitted. -/
def replies (s : Server) : List (UInt32 × List UInt8) :=
  s.sent.filterMap fun entry =>
    match entry.2.body with
    | .gpip _ content => some (entry.2.destination, content)
    | _ => none

/-- Two peers get their replies when each request is answered before the next one arrives. -/
theorem echo_replies_two
    : ∃ s, Run (EchoStep echoPage (.resource 0)) bootServer
          [.receiveGpIp 0xc0a80105 1 firstRequest, .send, .receiveGpIp 0xc0a80106 1 secondRequest, .send] s
        ∧ replies s = [
          (0xc0a80105, [0, 0, 0x8c, 0x68, 0x12, 0x34, 0, 1, 0x61, 0x62]),
          (0xc0a80106, [0, 0, 0xff, 0xf3, 0, 5, 0, 7])
        ] := by
  have checked : ((runChecked (next echoPage) (OneAtATime echoPage (.resource 0))
      [.receiveGpIp 0xc0a80105 1 firstRequest, .send, .receiveGpIp 0xc0a80106 1 secondRequest, .send]
      bootServer).map replies) = some [
        (0xc0a80105, [0, 0, 0x8c, 0x68, 0x12, 0x34, 0, 1, 0x61, 0x62]),
        (0xc0a80106, [0, 0, 0xff, 0xf3, 0, 5, 0, 7])
      ] := by
    decide +kernel
  rw [Option.map_eq_some_iff] at checked
  obtain ⟨s, run, sent⟩ := checked
  exact ⟨s, echo_replies echoPage_runs bootServer_initial (Run.of_checked run), sent⟩

/-- The calls for two requests that arrive. -/
def twoArrivals : List PacketCall :=
  [
    .packetIn (.resource 0) ⟨0, 0xc0a80105, 10, 1, 0⟩ firstRequest 1,
    .packetIn (.resource 0) ⟨1, 0xc0a80106, 8, 1, 0⟩ secondRequest 1
  ]

/-- Two valid requests of code 0 arrive before the first reply is sent: the first peer gets the identifier,
the sequence number and the data of the second one.
-/
theorem echo_replies_mixed
    : EchoRequest echoPage firstRequest ∧ sum firstRequest = 0xffff
      ∧ EchoRequest echoPage secondRequest ∧ sum secondRequest = 0xffff
      ∧ ∃ s s', Run (Step echoPage) bootServer
            [.receiveGpIp 0xc0a80105 1 firstRequest, .receiveGpIp 0xc0a80106 1 secondRequest] s
          ∧ Step echoPage s .send s' ∧ ¬ Echoes (.resource 0) s s' := by
  have checked : ((runChecked (next echoPage) (fun _ _ => True)
      [.receiveGpIp 0xc0a80105 1 firstRequest, .receiveGpIp 0xc0a80106 1 secondRequest]
      bootServer).bind fun s => (next echoPage s .send).map fun s' =>
        (s.packetCalls, s'.packetCalls, replies s'))
      = some (twoArrivals, twoArrivals ++ [.packetOut (.resource 0) ⟨0, 0xc0a80105, 10, 1, 1⟩],
        [(0xc0a80105, [0, 0, 0xff, 0xf3, 0, 5, 0, 7])]) := by
    decide +kernel
  simp only [Option.bind_eq_some_iff, Option.map_eq_some_iff, Prod.mk.injEq] at checked
  obtain ⟨s, run, s', step, before, after, sent⟩ := checked
  refine ⟨by decide, by decide, by decide, by decide, s, s', (Run.of_checked run).mono And.left, step,
    fun echoes => ?_⟩
  obtain ⟨arrived, request, content, call, connection, sent', echo⟩ :=
    echoes ⟨0, 0xc0a80105, 10, 1, 1⟩ (by rw [after, before])
  rw [replies, sent', List.filterMap_append] at sent
  have content_eq : content = [0, 0, 0xff, 0xf3, 0, 5, 0, 7] := by
    have last := congrArg List.getLast? sent
    simp only [List.filterMap_cons, List.filterMap_nil, List.getLast?_append, List.getLast?_singleton,
      Option.some_or, Option.some.injEq, Prod.mk.injEq] at last
    exact last.2
  have request_eq : request = firstRequest := by
    rw [before, twoArrivals, List.mem_cons, List.mem_singleton] at call
    rcases call with call | call
    · cases call
      rfl
    · cases call
      cases connection
  have copied := echo.copied
  rw [content_eq, request_eq] at copied
  exact absurd copied (by decide)

end Smews.System
