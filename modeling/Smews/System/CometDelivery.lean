import Smews.Output.Multicast
import Smews.System.FileSegments

/-! Comet responses: who is sent the segments that are generated for the listeners of a handler.
-/

namespace Smews.System

open Smews.Core Input Output Runs

variable {p : Program}

--------------------------------------------------
-- The property
--------------------------------------------------

/-- A connection listens for a comet handler: its request was acknowledged. -/
def Listens (h : HandlerRef) (c : HttpConnection) : Prop :=
  c.tcpState = .established ∧ c.outputHandler = some h ∧ c.cometSendAck = false

/-- There is room for a segment in the window. -/
def HasRoom (c : HttpConnection) : Prop := c.inflight.toNat + c.tcpMss.toNat ≤ c.cwnd.toNat

/-- The server with, for each connection, the comet segments generated for it since its service
was created.
-/
structure Trace where
  server : Server
  response : Addr → List (List UInt8)

/-- The segments of the responses after an event. -/
def nextResponse (p : Program) (t : Trace) : Event → Addr → List (List UInt8)
  | .send =>
      match emission p t.server with
      | none => t.response
      | some e =>
          if (p.handler e.handler).handlerComet then
            let earlier := if e.connection.generatorService.isNone then [] else t.response e.addr
            let current := if hasSegment p e.server e.handler then [currPayload e.server] else []
            Function.update t.response e.addr (earlier ++ current)
          else t.response
  | _ => t.response

/-- The segment about to be emitted is the last of its response: it is the only one, the void
chunk, or the end of a stream.
-/
def isLast (p : Program) (e : Emission) : Bool :=
  let o := e.server.currOutput
  hasSegment p e.server e.handler && (o.serviceHeader = .standard || o.contentLength = 0)
    || (p.handler e.handler).handlerStream && e.ended

/-- The segment of a comet handler that is emitted in a step goes to every listener that has
room, and with the last one every listener was sent the whole response.
-/
structure Delivered (p : Program) (t : Trace) (e : Emission) (t' : Trace) : Prop where
  everyone : hasSegment p e.server e.handler → ∀ b d, ⟨b, .http d⟩ ∈ t.server.connections
    → Listens e.handler d → HasRoom d
    → ∃ new, t'.server.sent = t.server.sent ++ new
      ∧ (some b, packetFor p d e.handler (currPayload e.server)) ∈ new
  complete : isLast p e → ∀ b d, ⟨b, .http d⟩ ∈ t'.server.connections → Listens e.handler d
    → d.nextOutseqno = d.finalOutseqno
      ∧ ∀ payload ∈ t'.response e.addr, ∃ h c, (some b, packetFor p c h payload) ∈ t'.server.sent

/-- A step of the server that records the segments generated. -/
def TraceStep (p : Program) (t : Trace) (event : Event) (t' : Trace) : Prop :=
  Step p t.server event t'.server ∧ t'.response = nextResponse p t event

/-- A step whose comet segment, if there is one, is delivered. -/
def DeliveringStep (p : Program) (t : Trace) (event : Event) (t' : Trace) : Prop :=
  TraceStep p t event t' ∧ (event = .send → ∀ e ∈ emission p t.server,
    (p.handler e.handler).handlerComet → Delivered p t e t')

--------------------------------------------------
-- The condition
--------------------------------------------------

/-- The connection that is served for a comet handler is the only one that listens for it. -/
def SoleListener (p : Program) (s : Server) : Prop :=
  ∀ i ∈ s.connections.findIdx? (·.ableToSend p), ∀ c ∈ s.http i, ∀ h ∈ c.outputHandler,
    (p.handler h).handlerComet → ∀ k ∈ s.connections.eraseIdx i, ∀ d ∈ httpOf k, ¬ Listens h d

instance (h : HandlerRef) (c : HttpConnection) : Decidable (Listens h c) :=
  inferInstanceAs (Decidable (_ ∧ _))

instance (c : HttpConnection) : Decidable (HasRoom c) := inferInstanceAs (Decidable (_ ≤ _))

instance (s : Server) : Decidable (SoleListener p s) := by
  unfold SoleListener
  infer_instance

/-- A step that meets the condition. -/
def SoleListenerStep (p : Program) (t : Trace) (event : Event) (t' : Trace) : Prop :=
  TraceStep p t event t' ∧ (event.isSend → SoleListener p t.server)

--------------------------------------------------
-- The steps
--------------------------------------------------

/-- All the segments generated for a connection were sent to it. -/
def ResponsesSent (p : Program) (t : Trace) : Prop :=
  ∀ a, ∀ payload ∈ t.response a, ∃ h c, (some a, packetFor p c h payload) ∈ t.server.sent

section Steps

variable {s s' : Server} {e : Emission}

theorem forall₂_append_singleton {α β : Type} {R : α → β → Prop} {xs : List α} {x : α}
    {ys : List β} (pairs : List.Forall₂ R (xs ++ [x]) ys)
    : ∃ ys' y, ys = ys' ++ [y] ∧ List.Forall₂ R xs ys' ∧ R x y := by
  induction xs generalizing ys with
  | nil =>
      cases pairs with
      | cons first rest =>
          cases rest
          exact ⟨[], _, rfl, .nil, first⟩
  | cons z xs ih =>
      cases pairs with
      | cons first rest =>
          obtain ⟨ys', y, rfl, front, last⟩ := ih rest
          exact ⟨_ :: ys', y, rfl, .cons first front, last⟩

/-- The connections of the ring other than the one that is served. -/
theorem others_of_chosen {i : Nat} {before : List Connection} {k : Connection}
    (chosen : s.connections.findIdx? (·.ableToSend p) = some i)
    (ring : (rotate i s).connections = before ++ [k])
    : ∀ k' ∈ before, k' ∈ s.connections.eraseIdx i := by
  obtain ⟨lt, -, -⟩ := List.findIdx?_eq_some_iff_getElem.mp chosen
  have last := rotate_last (List.getElem?_eq_getElem lt)
  rw [ring] at last
  obtain ⟨rfl, -⟩ := List.append_inj' last rfl
  intro k' mem
  rw [List.eraseIdx_eq_take_drop_succ]
  simpa [or_comm] using mem

/-- What the emission of a comet segment comes to: the ring and the packets of the listeners, of
whom only one was able to hear when the others do not listen.
-/
theorem comet_emission {i : Nat} {before : List Connection} {resource : DynamicResource}
    {t u : Server} (emitting : Emitting p s s' e i before resource t u)
    (comet : (p.handler e.handler).handlerComet)
    : ∃ c : HttpConnection, c.outputHandler = some e.handler
      ∧ (∀ payload, packetFor p c e.handler payload = packetFor p e.connection e.handler payload)
      ∧ (Connection.mk e.addr (.http c)).ableToSend p
      ∧ s'.sent = s.sent ++ e.server.connections.flatMap (multicastPackets p e.server e.handler)
      ∧ ∃ ring, e.server.connections = ring ++ [⟨e.addr, .http c⟩]
        ∧ List.Forall₂ (ServedBy e.handler) before ring
        ∧ ∃ d service, afterMulticast p e.server e.handler e.ended ⟨e.addr, .http c⟩
            = ⟨e.addr, .http d⟩
          ∧ s'.connections = ring.map (afterMulticast p e.server e.handler e.ended)
            ++ [⟨e.addr, .http { d with generatorService := service }⟩] := by
  obtain ⟨chosen, able, ring, ready, noAck, handler, generator, a, opened, c0, here0, prepared,
    emitted_, retransmitting, concluded⟩ := emitting
  have here : (rotate i s).http before.length = some e.connection := by simp [Server.http, ring]
  simp only [Connection.ableToSend, HttpConnection.somethingToSend, handler, noAck,
    Program.isControl, generator, Bool.or_self, Bool.false_eq_true, if_false, Bool.and_eq_true,
    Bool.not_eq_true', decide_eq_true_eq, bne_iff_ne] at able
  obtain ⟨⟨⟨established, something⟩, active⟩, room⟩ := able
  obtain ⟨served, sent, service, final, streaming, unfinished, found⟩ :=
    openService_comet opened here handler comet active something
  rw [here0, Option.some.injEq] at found
  obtain ⟨request, sameReady, changed, sent'⟩ := prepareSegment_ring prepared here0
  dsimp only [Progress.state] at changed sent'
  have opened_ring := served.ring
  rw [ring] at opened_ring
  obtain ⟨others, k0, t_ring, pairs, own⟩ := forall₂_append_singleton opened_ring
  have length : others.length = before.length := pairs.length_eq.symm
  have own0 : k0 = ⟨e.addr, .http c0⟩ := by
    have addr : k0.addr = e.addr := by
      rcases own with rfl | ⟨_, _, -, rfl, -⟩ <;> rfl
    rw [← length] at here0
    obtain ⟨b, at_last⟩ := http_eq here0
    rw [t_ring, List.getElem?_append_right le_rfl] at at_last
    simp only [Nat.sub_self, List.getElem?_cons_zero, Option.some.injEq] at at_last
    rw [at_last] at addr ⊢
    rw [← addr]
  subst own0
  rw [← length] at changed concluded
  rw [setHttp_last t_ring] at changed
  obtain ⟨same, u_ring, u_sent⟩ := emit_comet emitted_ generator comet
  obtain ⟨d, after⟩ : ∃ d, afterMulticast p e.server e.handler e.ended
      ⟨e.addr, .http { c0 with request }⟩ = ⟨e.addr, .http d⟩ := by
    unfold afterMulticast
    dsimp only
    split
    · exact ⟨_, rfl⟩
    · exact ⟨_, rfl⟩
  rw [changed, List.map_append, List.map_singleton, after] at u_ring
  have map_length : (others.map (afterMulticast p e.server e.handler e.ended)).length
      = others.length := List.length_map ..
  have u_http : u.http others.length = some d := by
    rw [← map_length]
    simp [Server.http, u_ring]
  obtain ⟨sent_end, service', ring_end⟩ := concludeSegment_ring concluded u_http
  rw [← map_length, setHttp_last u_ring] at ring_end
  refine ⟨{ c0 with request }, ?_, fun payload => ?_, ?_, ?_, others, changed, pairs, d, service',
    after, ring_end⟩
  · rw [found]
    exact handler
  · rw [found]
    simp [packetFor, segmentOptions]
  · rw [found]
    simp only [Connection.ableToSend, HttpConnection.somethingToSend, handler, noAck,
      Program.isControl, generator, Bool.or_self, Bool.false_eq_true, if_false, Bool.and_eq_true,
      Bool.not_eq_true', decide_eq_true_eq, bne_iff_ne]
    exact ⟨⟨⟨established, unfinished.symm⟩, active⟩, room⟩
  · rw [sent_end, u_sent, sent', sent]
    rfl

/-- The served connection among the packets of a comet segment. -/
theorem own_packet {c : HttpConnection} (able : (Connection.mk e.addr (.http c)).ableToSend p)
    (handler : c.outputHandler = some e.handler) (segment : hasSegment p e.server e.handler)
    {ring : List Connection} (last : e.server.connections = ring ++ [⟨e.addr, .http c⟩])
    : (some e.addr, packetFor p c e.handler (currPayload e.server))
      ∈ e.server.connections.flatMap (multicastPackets p e.server e.handler) := by
  rw [List.mem_flatMap]
  refine ⟨⟨e.addr, .http c⟩, by simp [last], ?_⟩
  simp [multicastPackets, listensNow, handler, able, segment]

/-- The segments generated for a connection stay among the packets sent to it. -/
theorem ResponsesSent.step {t t' : Trace} {event : Event} (sent : ResponsesSent p t)
    (step : TraceStep p t event t')
    : ResponsesSent p t' := by
  obtain ⟨step, response⟩ := step
  obtain ⟨more, grows⟩ := step_extends step
  have kept {a : Addr} {payload : List UInt8} (mem : payload ∈ t.response a)
      : ∃ h c, (some a, packetFor p c h payload) ∈ t'.server.sent := by
    obtain ⟨h, c, mem⟩ := sent a payload mem
    exact ⟨h, c, grows ▸ List.mem_append_left _ mem⟩
  intro a payload mem
  rw [response] at mem
  cases event <;> try exact kept mem
  unfold nextResponse at mem
  cases emits : emission p t.server with
  | none =>
      simp only [emits] at mem
      exact kept mem
  | some e =>
      simp only [emits] at mem
      by_cases comet : (p.handler e.handler).handlerComet
      swap
      · rw [if_neg comet] at mem
        exact kept mem
      rw [if_pos comet] at mem
      by_cases own : a = e.addr
      swap
      · rw [Function.update_of_ne own] at mem
        exact kept mem
      subst own
      rw [Function.update_self, List.mem_append] at mem
      rcases mem with earlier | current
      · split_ifs at earlier
        · cases earlier
        · exact kept earlier
      · split_ifs at current with segment
        · rw [List.mem_singleton] at current
          subst current
          obtain ⟨i, before, resource, u, v, emitting⟩ := smewsSend_emission step emits
          obtain ⟨c, handler, -, able, sent', ring, last, -⟩ := comet_emission emitting comet
          refine ⟨e.handler, c, ?_⟩
          rw [sent']
          exact List.mem_append_right _ (own_packet able handler segment last)
        · cases current

/-- The end of the response of the served connection. -/
theorem afterMulticast_last {c d : HttpConnection} {resource : DynamicResource}
    (able : (Connection.mk e.addr (.http c)).ableToSend p)
    (handler : c.outputHandler = some e.handler)
    (generator : (p.handler e.handler).data = .generator resource) (last : isLast p e)
    (after : afterMulticast p e.server e.handler e.ended ⟨e.addr, .http c⟩ = ⟨e.addr, .http d⟩)
    : d.nextOutseqno = d.finalOutseqno := by
  have listens : listensNow p e.handler ⟨e.addr, .http c⟩ = true := by
    simp [listensNow, handler, able]
  have syn : isSyn p e.handler = false := by
    simp only [isSyn, getFlags, generator]
    decide
  simp only [afterMulticast, listens, if_true, Connection.mk.injEq, Protocol.http.injEq,
    true_and] at after
  simp only [isLast, Bool.or_eq_true, Bool.and_eq_true, decide_eq_true_eq] at last
  subst after
  by_cases ends : (p.handler e.handler).handlerStream && e.ended
  · rw [if_pos ends]
  · rw [if_neg ends]
    simp only [Bool.and_eq_true] at ends
    obtain ⟨segment, final⟩ := last.resolve_right ends
    simp only [segment, if_true, emitted, advance, syn, Bool.false_eq_true, if_false, generator,
      if_pos final]

/-- A listener after the emission listened before it. -/
theorem listens_of_after {k k0 : Connection} {b : Addr} {d : HttpConnection}
    (served : ServedBy e.handler k0 k)
    (after : afterMulticast p e.server e.handler e.ended k = ⟨b, .http d⟩)
    (listens : Listens e.handler d)
    : ∃ d0, k0.protocol = .http d0 ∧ Listens e.handler d0 := by
  have before : ∃ d1, k.protocol = .http d1 ∧ Listens e.handler d1 := by
    obtain ⟨a, protocol⟩ := k
    cases protocol with
    | gpip g => cases after
    | http c =>
        refine ⟨c, rfl, ?_⟩
        unfold afterMulticast at after
        dsimp only at after
        split at after <;> cases after
        · obtain ⟨-, -, state, -, handler, noAck⟩ :=
            advance_frame (p := p) (t := e.server) c e.handler (currPayload e.server).length
          unfold Listens at *
          split_ifs at listens
          all_goals first
            | exact listens
            | (dsimp only [emitted] at listens; rwa [state, handler, noAck] at listens)
        · exact listens
  obtain ⟨d1, isHttp, listens⟩ := before
  rcases served with rfl | ⟨c, c', isHttp', rfl, pair⟩
  · exact ⟨d1, isHttp, listens⟩
  · cases isHttp
    refine ⟨c, isHttp', ?_⟩
    unfold Listens at *
    rwa [pair.tcpState, pair.outputHandler, pair.cometSendAck] at listens

/-- A segment that only its own connection listens to is delivered. -/
theorem SoleListener.delivered {t t' : Trace} {e : Emission} (sole : SoleListener p t.server)
    (sent : ResponsesSent p t') (step : TraceStep p t .send t')
    (emits : emission p t.server = some e) (comet : (p.handler e.handler).handlerComet)
    : Delivered p t e t' := by
  obtain ⟨i, before, resource, u, v, emitting⟩ := smewsSend_emission step.1 emits
  obtain ⟨c, handler, same, able, grows, ring, last, pairs, d, service, after, ring'⟩ :=
    comet_emission emitting comet
  have chosen := emitting.chosen
  have at_i : t.server.http i = some e.connection := by
    obtain ⟨lt, -, -⟩ := List.findIdx?_eq_some_iff_getElem.mp chosen
    have at_last := getElem?_rotate (s := t.server) lt
    rw [emitting.ring] at at_last
    simp only [List.length_append, List.length_singleton, Nat.add_sub_cancel,
      List.getElem?_append_right le_rfl, Nat.sub_self, List.getElem?_cons_zero] at at_last
    simp [Server.http, ← at_last]
  have deaf {k : Connection} {d : HttpConnection} (mem : k ∈ before) (isHttp : k.protocol = .http d)
      : ¬ Listens e.handler d :=
    sole i chosen e.connection at_i e.handler emitting.handler comet k
      (others_of_chosen chosen emitting.ring k mem) d (by simp [httpOf, isHttp])
  refine ⟨fun segment b d mem listens room => ?_, fun ends b d' mem listens => ?_⟩
  · rw [← mem_rotate (i := i), emitting.ring, List.mem_append, List.mem_singleton] at mem
    rcases mem with other | own
    · exact absurd listens (deaf other rfl)
    · cases own
      exact ⟨_, grows, same _ ▸ own_packet able handler segment last⟩
  · rw [ring', List.mem_append, List.mem_singleton] at mem
    rcases mem with other | own
    · rw [List.mem_map] at other
      obtain ⟨k, mem, eq⟩ := other
      obtain ⟨j, lt, at_j⟩ := List.mem_iff_getElem.mp mem
      obtain ⟨length, each⟩ := List.forall₂_iff_get.mp pairs
      have lt' : j < before.length := length ▸ lt
      have served := each j lt' lt
      simp only [List.get_eq_getElem, at_j] at served
      obtain ⟨d0, isHttp, listens⟩ := listens_of_after served eq listens
      exact absurd listens (deaf (List.getElem_mem lt') isHttp)
    · cases own
      have finished : d.nextOutseqno = d.finalOutseqno :=
        afterMulticast_last able handler emitting.generator ends after
      exact ⟨finished, sent e.addr⟩

theorem SoleListenerStep.delivering {t t' : Trace} {event : Event} (sent : ResponsesSent p t)
    (step : SoleListenerStep p t event t')
    : DeliveringStep p t event t' := by
  obtain ⟨step, sole⟩ := step
  refine ⟨step, fun isSend e emits comet => ?_⟩
  subst isSend
  exact (sole rfl).delivered (sent.step step) step emits comet

end Steps

--------------------------------------------------
-- Runs
--------------------------------------------------

/-- In a run in which each comet segment is generated for the only connection that listens, every
segment is delivered to every listener, by induction on the run: the segments generated so far
are among the packets sent.
-/
theorem comet_delivered {t t' : Trace} {events : List Event}
    (run : Run (SoleListenerStep p) t events t') (start : ∀ a, t.response a = [])
    : Run (DeliveringStep p) t events t' := by
  have initial : ResponsesSent p t := fun a payload mem => by simp [start a] at mem
  clear start
  induction run with
  | nil t => exact .nil t
  | cons first _ ih => exact .cons (first.delivering initial) (ih (initial.step first.1))

/-- A trace after an event. -/
def traceNext (p : Program) (t : Trace) (event : Event) : Option Trace :=
  (next p t.server event).map fun server => { server, response := nextResponse p t event }

theorem TraceStep.of_next {t t' : Trace} {event : Event} (eq : traceNext p t event = some t')
    : TraceStep p t event t' := by
  rw [traceNext, Option.map_eq_some_iff] at eq
  obtain ⟨server, step, rfl⟩ := eq
  exact ⟨step, rfl⟩

/-- A build whose only page, at `/a`, is a comet one. -/
def cometPage (resource : DynamicResource) : Program :=
  let page := oneGenerator resource noArgs
  {
    page with
    resource := fun index => { page.resource index with handlerComet := true }
    resource_ne_control := fun _ _ _ => HandlerData.noConfusion
  }

/-- The server before any segment is generated. -/
def bootTrace : Trace := { server := bootServer, response := fun _ => [] }

/-- A client listens and is served after an event. -/
def oneListener : List Event := requestOf 1000 ++ [.send, .push (.resource 0), .send]

/-- The only listener gets the page. -/
theorem comet_delivered_one
    : ∃ t, Run (DeliveringStep (cometPage hello)) bootTrace oneListener t
      ∧ t.server.sent.length = 3 := by
  have checked : ((runChecked (traceNext (cometPage hello))
      (fun t event => event.isSend → SoleListener (cometPage hello) t.server)
      oneListener bootTrace).map fun t => t.server.sent.length)
      = some 3 := by
    decide +kernel
  rw [Option.map_eq_some_iff] at checked
  obtain ⟨t, run, sent⟩ := checked
  have run' : Run (SoleListenerStep (cometPage hello)) bootTrace oneListener t :=
    (Run.of_checked run).mono fun step => ⟨.of_next step.1, step.2⟩
  exact ⟨t, comet_delivered run' fun _ => rfl, sent⟩

/-- Two clients listen when the handler is pushed. -/
def twoListeners : List Event :=
  let second : List Event := (requestOf 1000).map fun
    | .receive seg => .receive { seg with srcPort := 4001, fits := seg.fits }
    | event => event
  requestOf 1000 ++ [.send] ++ second ++ [.send, .push (.resource 0)]

/-- The second listener, which became passive, is not sent the segment that is generated. -/
theorem comet_fails_two
    : ∃ t t', Run (TraceStep (cometPage hello)) bootTrace twoListeners t
      ∧ TraceStep (cometPage hello) t .send t' ∧ ¬ DeliveringStep (cometPage hello) t .send t' := by
  have checked : ((runChecked (traceNext (cometPage hello)) (fun _ _ => True)
      twoListeners bootTrace).bind fun t => (traceNext (cometPage hello) t .send).bind fun t' =>
        (emission (cometPage hello) t.server).bind fun e => (t.server.http 1).map fun d =>
          (decide (e.handler = .resource 0 ∧ hasSegment (cometPage hello) e.server e.handler
              ∧ Listens e.handler d ∧ HasRoom d),
            t.server.connections[1]?.map (·.addr),
            t.server.sent.map Prod.fst, t'.server.sent.map Prod.fst))
      = some (true, some 1, [some 0, some 0, some 1, some 1],
        [some 0, some 0, some 1, some 1, some 0]) := by
    decide +kernel
  simp only [Option.bind_eq_some_iff, Option.map_eq_some_iff, Prod.mk.injEq,
    decide_eq_true_eq] at checked
  obtain ⟨t, run, t', step, e, emits, d, here, ⟨handler, segment, listens, room⟩, ⟨k, at_1, one⟩,
    before, after⟩ := checked
  refine ⟨t, t', (Run.of_checked run).mono fun step => .of_next step.1, .of_next step,
    fun delivering => ?_⟩
  have delivered := delivering.2 rfl e emits (by rw [handler]; rfl)
  obtain ⟨b, at_1'⟩ := http_eq here
  have second : b = 1 := by
    rw [at_1', Option.some.injEq] at at_1
    rw [← one, ← at_1]
  obtain ⟨new, sent, mem⟩ :=
    delivered.everyone segment b d (List.mem_of_getElem? at_1') listens room
  rw [sent, List.map_append, before] at after
  have only : new.map Prod.fst = [some 0] := List.append_cancel_left after
  have own : some b ∈ new.map Prod.fst := List.mem_map_of_mem mem
  rw [only, second] at own
  revert own
  decide

end Smews.System
