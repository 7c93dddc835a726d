import Smews.System.CometDelivery

/-! The remote address that the driver is told: `get_current_remote_ip` looks at the connection before
`all_connections`, which is the one that `smews_send` has chosen.
-/

namespace Smews.System

open Smews.Core Input Output Runs

variable {p : Program}

--------------------------------------------------
-- The property
--------------------------------------------------

/-- For every packet that is emitted in between, `get_current_remote_ip` returns its destination. -/
def Addressed (s s' : Server) : Prop :=
  ∃ new, s'.outputDone = s.outputDone ++ new ∧ ∀ entry ∈ new, entry.1 = some entry.2.destination

/-- A step whose packets are addressed. -/
def AddressedStep (p : Program) (s : Server) (event : Event) (s' : Server) : Prop :=
  Step p s event s' ∧ Addressed s s'

--------------------------------------------------
-- The condition
--------------------------------------------------

/-- What `smews_send` is going to emit is for the last connection of the ring that it leaves: a reset is
for its peer; and a comet response that goes on has no listener elsewhere that is able to send.
-/
structure Directed (p : Program) (s : Server) : Prop where
  reset : s.rstConnection.port ≠ 0 → s.getCurrentRemoteIp = some s.rstConnection.ipAddr
  listeners : s.rstConnection.port = 0 → ∀ i ∈ s.connections.findIdx? (·.ableToSend p),
    ∀ c ∈ s.http i, ∀ h ∈ c.outputHandler, c.generatorService.isSome → (p.handler h).handlerComet →
      ∀ k ∈ s.connections, listensNow p h k → k.ipAddr = c.ipAddr

/-- A step that meets the condition. -/
def DirectedStep (p : Program) (s : Server) (event : Event) (s' : Server) : Prop :=
  Step p s event s' ∧ (event.isSend → Directed p s)

--------------------------------------------------
-- One packet
--------------------------------------------------

section Packets

variable {s t s' : Server} {before : List Connection} {a : Addr} {c : HttpConnection}

theorem Addressed.of_eq (same : s'.outputDone = s.outputDone) : Addressed s s' :=
  ⟨[], by rw [same, List.append_nil], fun _ mem => nomatch mem⟩

theorem Addressed.from (addressed : Addressed t s') (same : t.outputDone = s.outputDone)
    : Addressed s s' := by
  obtain ⟨new, grows, right⟩ := addressed
  exact ⟨new, same ▸ grows, right⟩

theorem Addressed.to (addressed : Addressed s t) (same : s'.outputDone = t.outputDone)
    : Addressed s s' := by
  obtain ⟨new, grows, right⟩ := addressed
  exact ⟨new, same.trans grows, right⟩

theorem currentRemoteIp_last {k : Connection} (ring : s.connections = before ++ [k])
    : s.getCurrentRemoteIp = some k.ipAddr := by
  simp [Server.getCurrentRemoteIp, ring]

/-- A packet for the last connection of the ring is addressed. -/
theorem sendPacket_addressed (send : sendPacket p before.length s = some s')
    (ring : s.connections = before ++ [⟨a, .http c⟩])
    : Addressed s s' := by
  obtain ⟨a', c', h, payload, at_last, -, -, rfl⟩ := sendPacket_spec send
  rw [ring, List.getElem?_append_right le_rfl, Nat.sub_self] at at_last
  cases at_last
  refine ⟨[(s.getCurrentRemoteIp, packetFor p c h payload)], rfl, fun entry mem => ?_⟩
  rw [List.mem_singleton] at mem
  rw [mem, currentRemoteIp_last ring]
  rfl

theorem sendControl_addressed {old : Option HandlerRef}
    (send : sendControl p before.length old s = some s')
    (ring : s.connections = before ++ [⟨a, .http c⟩])
    : Addressed s s' := by
  unfold sendControl at send
  rw [Option.bind_eq_bind, Option.bind_eq_some_iff] at send
  obtain ⟨t, emits, send⟩ := send
  refine (sendPacket_addressed emits ring).to ?_
  rw [Option.bind_eq_bind, Option.bind_eq_some_iff] at send
  obtain ⟨c', -, send⟩ := send
  dsimp only at send
  split at send
  · exact (freeConnection_unheard send).outputDone.trans rfl
  split at send
  · cases send
    rfl
  · split at send <;> cases send <;> rfl

theorem sendGpIp_addressed {c : GpIpConnection} (send : sendGpIp p before.length c s = some s')
    (ring : s.connections = before ++ [⟨a, .gpip c⟩])
    : Addressed s s' := by
  unfold sendGpIp at send
  split at send
  · rw [Option.bind_eq_bind, Option.bind_eq_some_iff] at send
    obtain ⟨k, -, send⟩ := send
    rw [Addressed, (freeConnection_unheard send).outputDone]
    refine ⟨_, rfl, fun entry mem => ?_⟩
    rw [List.mem_singleton] at mem
    rw [mem]
    exact currentRemoteIp_last (s := s) ring
  · cases send

end Packets

--------------------------------------------------
-- A generator
--------------------------------------------------

section Generators

variable {s s' : Server} {e : Emission} {i : Nat} {before : List Connection}
  {resource : DynamicResource} {t u : Server}

/-- When a comet response begins, the connections other than its own do not listen any more. -/
theorem markPassive_deaf {h : HandlerRef} {j : Nat} {k : Connection} (other : j ≠ i)
    (at_j : (markPassive i h s).connections[j]? = some k)
    : ¬ listensNow p h k := by
  simp only [markPassive, List.getElem?_map, List.getElem?_zipIdx, Option.map_map,
    Option.map_eq_some_iff, Function.comp_apply] at at_j
  obtain ⟨⟨addr, protocol⟩, -, rfl⟩ := at_j
  cases protocol with
  | gpip g => simp [listensNow]
  | http c =>
      by_cases handler : c.outputHandler = some h
      · simp [listensNow, handler, Connection.ableToSend, other]
      · simp [listensNow, handler]

/-- The other connections of the ring, once the service of a comet handler is open: they are as they
were, or they do not listen any more.
-/
theorem openService_others {h : HandlerRef} {b : Addr} {c : HttpConnection} {j : Nat} {k : Connection}
    (opened : openService p i c h resource s = (some b, t)) (comet : (p.handler h).handlerComet)
    (other : j ≠ i) (at_j : t.connections[j]? = some k) (listens : listensNow p h k)
    : c.generatorService.isSome ∧ s.connections[j]? = some k := by
  unfold openService at opened
  dsimp only at opened
  cases service : c.generatorService with
  | some b =>
      simp only [service, Prod.mk.injEq, Option.some.injEq] at opened
      obtain ⟨-, rfl⟩ := opened
      exact ⟨rfl, at_j⟩
  | none =>
      simp only [service, createService] at opened
      split at opened
      · cases opened
      · simp only [Prod.mk.injEq, Option.some.injEq, initService, if_pos comet] at opened
        obtain ⟨-, rfl⟩ := opened
        exact absurd listens (markPassive_deaf other at_j)

/-- The listeners of a comet segment are the connection that is served and those that listened before,
unless the response begins with it.
-/
theorem listener_of_emission (emitting : Emitting p s s' e i before resource t u)
    (comet : (p.handler e.handler).handlerComet) {k : Connection} (mem : k ∈ e.server.connections)
    (listens : listensNow p e.handler k)
    : k.ipAddr = e.connection.ipAddr
      ∨ e.connection.generatorService.isSome ∧ k ∈ s.connections := by
  obtain ⟨c, -, packet, -, -, ring, last, pairs, -⟩ := comet_emission emitting comet
  obtain ⟨a, opened, c0, here0, prepared, -⟩ := emitting.opened
  obtain ⟨request, -, changed, -⟩ := prepareSegment_ring prepared here0
  dsimp only [Progress.state] at changed
  obtain ⟨j, at_j⟩ := List.mem_iff_getElem?.mp mem
  by_cases own : j = before.length
  · left
    rw [last, own, pairs.length_eq, List.getElem?_append_right le_rfl, Nat.sub_self] at at_j
    cases at_j
    exact congrArg Packet.destination (packet [])
  · right
    rw [changed, Server.setHttp, List.getElem?_modify_ne _ _ (Ne.symm own)] at at_j
    obtain ⟨service, at_j⟩ := openService_others opened comet own at_j listens
    exact ⟨service, (rotate_perm i s).mem_iff.mp (List.mem_of_getElem? at_j)⟩

/-- The connection that was chosen, at its position before the rotation. -/
theorem http_of_chosen {c : HttpConnection} {a : Addr}
    (chosen : s.connections.findIdx? (·.ableToSend p) = some i)
    (ring : (rotate i s).connections = before ++ [⟨a, .http c⟩])
    : s.http i = some c := by
  obtain ⟨lt, -, -⟩ := List.findIdx?_eq_some_iff_getElem.mp chosen
  have at_i := getElem?_rotate (s := s) lt
  rw [ring] at at_i
  simp [Server.http, ← at_i]

/-- The last connection of the ring stays there while it is served. -/
theorem ring_served {h : HandlerRef} {a : Addr} {c : HttpConnection} (served : RingServed p h s s')
    (ring : s.connections = before ++ [⟨a, .http c⟩])
    : ∃ before' c', before'.length = before.length ∧ c'.ipAddr = c.ipAddr
      ∧ s'.connections = before' ++ [⟨a, .http c'⟩] := by
  have pairs := served.ring
  rw [ring] at pairs
  obtain ⟨before', k, ring', front, own⟩ := forall₂_append_singleton pairs
  rcases own with rfl | ⟨d, d', isHttp, rfl, own⟩
  · exact ⟨before', c, front.length_eq.symm, rfl, ring'⟩
  · cases isHttp
    exact ⟨before', d', front.length_eq.symm, own.ipAddr, ring'⟩

/-- The packets of a segment are addressed: a comet segment goes to listeners of one address. -/
theorem emit_addressed (emitting : Emitting p s s' e i before resource t u)
    (served : RingServed p e.handler (rotate i s) e.server)
    (emits : emit p before.length e.handler e.ended e.server = some u)
    (directed : Directed p s) (rst : s.rstConnection.port = 0)
    : Addressed e.server u := by
  obtain ⟨before', c, length, ip, ring⟩ := ring_served served emitting.ring
  by_cases comet : (p.handler e.handler).handlerComet
  · obtain ⟨-, -, sent⟩ := emit_comet emits emitting.generator comet
    rw [emit, if_pos comet] at emits
    obtain ⟨new, sent', -, done⟩ := (multicast_served _ emits emitting.generator).sent
    obtain rfl := List.append_cancel_left (sent'.symm.trans sent)
    refine ⟨_, done, fun entry mem => ?_⟩
    rw [List.mem_map] at mem
    obtain ⟨packet, mem, rfl⟩ := mem
    obtain ⟨⟨b, protocol⟩, member, mem⟩ := List.mem_flatMap.mp mem
    rw [currentRemoteIp_last ring]
    cases protocol with
    | gpip g => cases mem
    | http d =>
        simp only [multicastPackets] at mem
        split_ifs at mem with listens
        · rw [List.mem_singleton] at mem
          rw [Bool.and_eq_true] at listens
          subst mem
          have same : d.ipAddr = e.connection.ipAddr := by
            rcases listener_of_emission emitting comet member listens.1 with same | ⟨service, old⟩
            · exact same
            · exact directed.listeners rst i emitting.chosen e.connection
                (http_of_chosen emitting.chosen emitting.ring) e.handler emitting.handler service
                comet _ old listens.1
          exact congrArg some (ip.trans same.symm)
        · cases mem
  · rw [emit, if_neg comet, ← length] at emits
    exact sendPacket_addressed emits ring

/-- A call of `smews_send` for a generator. -/
theorem sendGenerator_addressed {a : Addr} {c : HttpConnection} {h : HandlerRef}
    (chosen : s.connections.findIdx? (·.ableToSend p) = some i)
    (able : (Connection.mk a (.http c)).ableToSend p)
    (ring : (rotate i s).connections = before ++ [⟨a, .http c⟩])
    (ready : c.request.readyToSend) (noAck : c.cometSendAck = false)
    (handler : c.outputHandler = some h) (generator : (p.handler h).data = .generator resource)
    (send : sendGenerator p before.length h resource (rotate i s) = some s')
    (directed : Directed p s) (rst : s.rstConnection.port = 0)
    : Addressed (rotate i s) s' := by
  have here : (rotate i s).http before.length = some c := by simp [Server.http, ring]
  rw [sendGenerator_eq here] at send
  rcases opened : openService p before.length c h resource (rotate i s) with ⟨b, t⟩
  rw [opened] at send
  obtain ⟨served, sent⟩ := openService_served opened here handler
  have done := served.done sent
  cases b with
  | none =>
      cases send
      exact .of_eq done
  | some b =>
      dsimp only at send
      obtain ⟨c0, here0, same⟩ := served.http here
      have handler0 : c0.outputHandler = some h := by
        rcases same with rfl | same
        · exact handler
        · rw [same.outputHandler, handler]
      rw [sendService_eq here0, Option.bind_eq_some_iff] at send
      obtain ⟨progress, prepared, send⟩ := send
      have served' := prepareSegment_served prepared here0 handler0
      obtain ⟨-, -, -, sent'⟩ := prepareSegment_ring prepared here0
      have done' := served'.done sent'
      cases progress with
      | stop v =>
          cases send
          exact .of_eq (done'.trans done)
      | go ended v =>
          dsimp only at send
          rw [Option.bind_eq_some_iff] at send
          obtain ⟨u, emits, concluded⟩ := send
          let e : Emission := ⟨a, c, h, ended, v⟩
          have emitting : Emitting p s s' e i before resource t u :=
            ⟨chosen, able, ring, ready, noAck, handler, generator, b, opened, c0, here0, prepared,
              emits, _, concluded⟩
          have addressed := emit_addressed emitting (served.trans served') emits directed rst
          refine (addressed.from (done'.trans done)).to ?_
          obtain ⟨c1, here1, same1⟩ := served'.http here0
          have handler1 : c1.outputHandler = some h := by
            rcases same1 with rfl | same1
            · exact handler0
            · rw [same1.outputHandler, handler0]
          obtain ⟨c2, here2, same2⟩ := (emit_served emits generator here1 handler1).http here1
          have handler2 : c2.outputHandler = some h := by
            rcases same2 with rfl | same2
            · exact handler1
            · rw [same2.outputHandler, handler1]
          exact (concludeSegment_served (p := p) concluded here2 handler2).done
            (concludeSegment_ring concluded here2).1

end Generators

--------------------------------------------------
-- Runs
--------------------------------------------------

section Steps

variable {s s' : Server}

/-- A call of `smews_send` that meets the condition. -/
theorem Directed.addressed (directed : Directed p s) (send : smewsSend p s = some s')
    : Addressed s s' := by
  unfold smewsSend at send
  by_cases rst : s.rstConnection.port = 0
  swap
  · rw [if_pos rst, Option.some.injEq] at send
    subst send
    refine ⟨_, rfl, fun entry mem => ?_⟩
    rw [List.mem_singleton] at mem
    rw [mem]
    exact directed.reset rst
  rw [if_neg (not_not.mpr rst)] at send
  cases chosen : s.connections.findIdx? (·.ableToSend p) with
  | none =>
      simp only [chosen, Option.some.injEq] at send
      exact .of_eq (by rw [send])
  | some i =>
      obtain ⟨lt, able, -⟩ := List.findIdx?_eq_some_iff_getElem.mp chosen
      rcases connection : s.connections[i] with ⟨a, protocol⟩
      rw [connection] at able
      have ring := rotate_last ((List.getElem?_eq_getElem lt).trans (congrArg some connection))
      generalize s.connections.drop (i + 1) ++ s.connections.take i = before at ring
      have length : (rotate i s).connections.length - 1 = before.length := by simp [ring]
      have at_last : (rotate i s).connections[before.length]? = some ⟨a, protocol⟩ := by
        simp [ring]
      simp only [chosen, length, at_last, Option.bind_eq_bind, Option.bind_some] at send
      refine Addressed.from (t := rotate i s) ?_ rfl
      cases protocol with
      | gpip g => exact sendGpIp_addressed send ring
      | http c =>
          have here : (rotate i s).http before.length = some c := by simp [Server.http, ring]
          simp only [sendHttp, here, Option.bind_eq_bind, Option.bind_some] at send
          split_ifs at send with ack
          · exact (sendControl_addressed send (setHttp_last ring _)).from rfl
          rw [not_or, not_not, Bool.not_eq_true] at ack
          rw [Option.bind_eq_some_iff] at send
          obtain ⟨h, handler, send⟩ := send
          cases data : (p.handler h).data with
          | control length flags =>
              simp only [data] at send
              exact sendControl_addressed send ring
          | file file =>
              simp only [data] at send
              exact sendPacket_addressed send ring
          | generator resource =>
              simp only [data] at send
              exact sendGenerator_addressed chosen able ring ack.1 ack.2 handler data send directed
                rst
          | generalIp g => simp [data] at send

end Steps

/-- In every run whose calls of `smews_send` meet the condition, `get_current_remote_ip` returns the
destination of each packet when it is emitted.
-/
theorem packets_addressed {s s' : Server} {events : List Event}
    (run : Run (DirectedStep p) s events s')
    : Run (AddressedStep p) s events s' := by
  refine run.mono ?_
  rintro s event s' ⟨step, directed⟩
  refine ⟨step, ?_⟩
  by_cases send : event.isSend
  · cases event with
    | send => exact (directed send).addressed step
    | _ => cases send
  · exact .of_eq (step_done step send).2

instance (s : Server) : Decidable (Directed p s) :=
  decidable_of_iff
    ((s.rstConnection.port ≠ 0 → s.getCurrentRemoteIp = some s.rstConnection.ipAddr)
      ∧ (s.rstConnection.port = 0 → ∀ i ∈ s.connections.findIdx? (·.ableToSend p),
        ∀ c ∈ s.http i, ∀ h ∈ c.outputHandler, c.generatorService.isSome →
          (p.handler h).handlerComet → ∀ k ∈ s.connections, listensNow p h k → k.ipAddr = c.ipAddr))
    ⟨fun ⟨reset, listeners⟩ => ⟨reset, listeners⟩, fun directed => ⟨directed.reset, directed.listeners⟩⟩

/-- A comet page is sent to its only listener. -/
theorem packets_addressed_comet
    : ∃ s, Run (AddressedStep (cometPage hello)) bootServer oneListener s
      ∧ s.outputDone.length = 3 := by
  have checked : ((runChecked (next (cometPage hello))
      (fun s event => event.isSend → Directed (cometPage hello) s) oneListener bootServer).map
        fun s => s.outputDone.length) = some 3 := by
    decide +kernel
  rw [Option.map_eq_some_iff] at checked
  obtain ⟨s, run, done⟩ := checked
  exact ⟨s, packets_addressed (Run.of_checked run), done⟩

theorem stray_fits : 40 + ([] : List UInt8).length + (ascii "x").length < 65536 := by decide

/-- A client connects, and another one that has no connection sends a byte. -/
def strayByte : List Event :=
  let stray := clientSegment 1 2 (tcpAck ||| tcpPsh) 8192 [] (ascii "x") stray_fits
  [
    .receive (clientSegment 1000 0 tcpSyn 8192 [] [] bare_fits),
    .receive { stray with srcAddr := 0xc0a80106, fits := stray.fits },
    .send
  ]

/-- The reset of the stray byte is sent while the ring ends with another client. -/
theorem packets_misaddressed_reset
    : ∃ s, Run (Step (oneGenerator hello noArgs)) bootServer strayByte s
      ∧ ∃ entry ∈ s.outputDone, entry.1 = some 0xc0a80105 ∧ entry.2.destination = 0xc0a80106 := by
  have checked : ((runChecked (next (oneGenerator hello noArgs)) (fun _ _ => True) strayByte
      bootServer).map fun s => s.outputDone.map fun entry => (entry.1, entry.2.destination))
      = some [(some 0xc0a80105, 0xc0a80106)] := by
    decide +kernel
  rw [Option.map_eq_some_iff] at checked
  obtain ⟨s, run, done⟩ := checked
  have mem : (some 0xc0a80105, 0xc0a80106) ∈ s.outputDone.map fun entry => (entry.1, entry.2.destination) := by
    rw [done]
    exact List.mem_cons_self
  obtain ⟨entry, mem, eq⟩ := List.mem_map.mp mem
  rw [Prod.mk.injEq] at eq
  exact ⟨s, (Run.of_checked run).mono And.left, entry, mem, eq.1, eq.2⟩

end Smews.System
