import Smews.Output.Response
import Smews.System.Ring

/-! The framing of generated responses: whatever else happens between the segments of a response, as
long as it does not touch it, a client reads the contents of the generator back.
-/

namespace Smews.System

open Smews.Core Input Output Runs

--------------------------------------------------
-- Steps
--------------------------------------------------

/-- What stays the same of a connection while nothing touches its response: at most its window
moves.
-/
def Untouched (c c' : HttpConnection) : Prop :=
  c' = {
    c with
    inflight := c'.inflight
    cwnd := c'.cwnd
    currentInseqno := c'.currentInseqno
    transmissionTime := c'.transmissionTime
  }

/-- A step that does not touch the response of a connection: nothing is sent for it, nor generated by
its service, whose coroutine keeps its frame wherever it is moved.
-/
structure Undisturbed (a : Addr) (s s' : Server) : Prop where
  exhausted : s'.heap.exhausted = s.heap.exhausted
  sent : ∃ more, s'.sent = s.sent ++ more ∧ payloadsTo a more = []
  connection : ∀ c, Holds s a c → ∃ c', Holds s' a c' ∧ Untouched c c'
  service : ∀ c b, Holds s a c → c.generatorService = some b
    → (∃ records, s'.service b = { s.service b with inFlightInfos := records })
      ∧ ∀ status frame, Parked s.heap (.service b) status frame
        → Parked s'.heap (.service b) status frame

/-- A turn of the server: `smews_send` serves the connection of a response, or something else
happens.
-/
inductive Turn
  | serve
  | other (event : Event)

def Turn.isServe : Turn → Bool
  | .serve => true
  | .other _ => false

/-- The number of turns that serve the response. -/
def serves (turns : List Turn) : Nat := turns.countP Turn.isServe

/-- A turn without a retransmission for the connection of the address `a`. -/
def ResponseStep (p : Program) (a : Addr) (s : Server) (turn : Turn) (s' : Server) : Prop :=
  match turn with
  | .serve => Chosen p s a ∧ Step p s .send s'
  | .other event => Step p s event s' ∧ Undisturbed a s s'

--------------------------------------------------
-- What holds during a response
--------------------------------------------------

/-- The response of the connection `start` after `n` segments. -/
def Underway (p : Program) (a : Addr) (contents : List UInt8) (start : HttpConnection) (t : Server)
    (n : Nat) (s : Server)
    : Prop :=
  Plentiful s.heap ∧ ∃ more left c, s.sent = t.sent ++ more
    ∧ payloadsTo a more ++ left
      = responsePayloads (firstLimit p start.tcpMss) (laterLimit p start.tcpMss) contents
    ∧ (payloadsTo a more).length = n ∧ Holds s a c ∧ SameRequest start c
    ∧ Left p contents start c s n left

/-- What a client gets of a response, and what the server is about to do, after `n` segments. -/
structure Framed (p : Program) (a : Addr) (contents : List UInt8) (payloads : List (List UInt8))
    (start : Server) (n : Nat) (s : Server)
    : Prop where
  decodes : HttpMessage.decode payloads.flatten = some contents
  sent : payloadsTo a (s.sent.drop start.sent.length) = payloads.take n
  bounded : n ≤ payloads.length
  goesOn : n < payloads.length → ∃ c, Holds s a c ∧ c.somethingToSend p
    ∧ (Chosen p s a → ∃ s', Step p s .send s')
  ends : n = payloads.length → ∃ c, Holds s a c ∧ c.finalOutseqno = c.nextOutseqno ∧ ¬ Chosen p s a

variable {p : Program} {a : Addr} {h : HandlerRef} {resource : DynamicResource}
  {start c : HttpConnection} {t s s' : Server} {contents : List UInt8} {payloads : List (List UInt8)}
  {n : Nat}

theorem Untouched.same {c' : HttpConnection} (untouched : Untouched c c') : SameRequest c c' := by
  rw [untouched]
  exact ⟨rfl, rfl, rfl, rfl, rfl, rfl, rfl, rfl⟩

theorem payloadsTo_append (sent more : List (Option Addr × Packet))
    : payloadsTo a (sent ++ more) = payloadsTo a sent ++ payloadsTo a more := by
  simp [payloadsTo]

/-- What is left of a response does not change while nothing touches it. -/
theorem left_undisturbed {c' : HttpConnection} (left : Left p contents start c s n payloads)
    (holds : Holds s a c) (undisturbed : Undisturbed a s s') (untouched : Untouched c c')
    : Left p contents start c' s' n payloads := by
  have next : c'.nextOutseqno = c.nextOutseqno := by rw [untouched]
  have final : c'.finalOutseqno = c.finalOutseqno := by rw [untouched]
  have service : c'.generatorService = c.generatorService := by rw [untouched]
  cases left with
  | complete n complete => exact .complete n (by rw [final, next, complete])
  | suspended b j x k own parked inOrder header rest next' final' =>
      obtain ⟨⟨records, same⟩, stays⟩ := undisturbed.service c b holds own
      refine .suspended b j x k (service.trans own) (stays _ _ parked) ?_ ?_ rest (next.trans next')
        (final.trans final')
      · rw [same, next]
        exact inOrder
      · rw [same]
        exact header
  | ended b j frame own parked inOrder header last next' final' =>
      obtain ⟨⟨records, same⟩, stays⟩ := undisturbed.service c b holds own
      refine .ended b j frame (service.trans own) (stays _ _ parked) ?_ ?_ last (next.trans next')
        (final.trans final')
      · rw [same, next]
        exact inOrder
      · rw [same]
        exact header

/-- Something else happens during a response. -/
theorem Underway.other (underway : Underway p a contents start t n s)
    (undisturbed : Undisturbed a s s')
    : Underway p a contents start t n s' := by
  obtain ⟨plenty, more, left, c, sent, whole, count, holds, same, rest⟩ := underway
  obtain ⟨more', sent', none⟩ := undisturbed.sent
  obtain ⟨c', holds', untouched⟩ := undisturbed.connection c holds
  refine ⟨fun n => by rw [undisturbed.exhausted]; exact plenty n, more ++ more', left, c',
    by rw [sent', sent, List.append_assoc], ?_, ?_, holds', same.trans untouched.same,
    left_undisturbed rest holds undisturbed untouched⟩
  · rw [payloadsTo_append, none, List.append_nil, whole]
  · rw [payloadsTo_append, none, List.append_nil, count]

/-- A segment is added to those that were sent. -/
theorem Underway.of_segment {payload : List UInt8} {left : List (List UInt8)}
    {more : List (Option Addr × Packet)} (plenty : Plentiful s.heap) (sent : s.sent = t.sent ++ more)
    (whole : payloadsTo a more ++ payload :: left
      = responsePayloads (firstLimit p start.tcpMss) (laterLimit p start.tcpMss) contents)
    (same : SameRequest start c) (segment : SegmentSent p a contents start c
      ((payloadsTo a more).length + 1) payload left s s')
    : Underway p a contents start t ((payloadsTo a more).length + 1) s' := by
  obtain ⟨packet, rfl, sent'⟩ := segment.sent
  obtain ⟨c', holds, same', rest⟩ := segment.connection
  have own : payloadsTo a (more ++ [(some a, packet)]) = payloadsTo a more ++ [packetPayload packet] := by
    rw [payloadsTo_append]
    simp [payloadsTo]
  refine ⟨fun n => by rw [segment.exhausted]; exact plenty n, more ++ [(some a, packet)], left, c',
    by rw [sent', sent, List.append_assoc], ?_, ?_, holds, same.trans same', rest⟩
  · rw [own, ← whole]
    simp
  · rw [own, List.length_append]
    rfl

/-- `smews_send` serves a response that is not complete. -/
theorem Underway.serve (underway : Underway p a contents start t n s)
    (handler : start.outputHandler = some h) (ready : start.request.readyToSend)
    (noAck : start.cometSendAck = false) (generator : (p.handler h).data = .generator resource)
    (noComet : (p.handler h).handlerComet = false) (noStream : (p.handler h).handlerStream = false)
    (room : serviceHeadersSize .chunks < p.maxOutSize start.tcpMss) (chosen : Chosen p s a)
    : ∃ s', smewsSend p s = some s' ∧ Underway p a contents start t (n + 1) s'
      ∧ s'.rstConnection = s.rstConnection ∧ s'.connections.length = s.connections.length := by
  obtain ⟨plenty, more, left, c, sent, whole, rfl, holds, same, rest⟩ := underway
  obtain ⟨s', payload, left', step, rfl, segment⟩ := Left.next (h := h) rest holds same.tcpMss
    (same.outputHandler.trans handler) (by rw [same.ready]; exact ready)
    (same.cometSendAck.trans noAck) plenty generator noComet noStream room chosen
  exact ⟨s', step, .of_segment plenty sent whole same segment, segment.rst, segment.length⟩

--------------------------------------------------
-- The end of a response
--------------------------------------------------

/-- The sequence number after a prefix of the response is not the one before its first number. -/
theorem next_ne_final {first later length j : Nat} {begin_ next final : UInt32}
    (unwrapped : Unwrapped first later length) (long : first < length)
    (chunk : j = 0 ∨ first + (j - 1) * later < length)
    (next_eq : next = begin_ + UInt32.ofNat (chunksLength first later length j))
    (final_eq : final = begin_ - 1)
    : next ≠ final := by
  intro eq
  have sum : UInt32.ofNat (chunksLength first later length j) + 1 = 0 := by
    rw [next_eq, final_eq] at eq
    grind
  have zero := congrArg UInt32.toNat sum
  rw [UInt32.toNat_add, UInt32.toNat_ofNat'] at zero
  have := unwrapped long j chunk
  simp only [UInt32.toNat_one, UInt32.toNat_zero] at zero
  omega

/-- A response that is not complete has something to send. -/
theorem left_somethingToSend {payload : List UInt8} {left : List (List UInt8)}
    (rest : Left p contents start c s n (payload :: left)) (same : SameRequest start c)
    (handler : start.outputHandler = some h) (established : start.tcpState = .established)
    (unwrapped : Unwrapped (firstLimit p start.tcpMss) (laterLimit p start.tcpMss) contents.length)
    : c.somethingToSend p := by
  have differs : c.nextOutseqno ≠ c.finalOutseqno := by
    generalize whole : payload :: left = payloads at rest
    cases rest with
    | complete n final => cases whole
    | suspended b j x k service parked inOrder header rest next final =>
        have length := congrArg List.length rest
        rw [List.length_cons, List.length_drop] at length
        refine next_ne_final unwrapped (j := j) (by omega) ?_ next final
        by_cases zero : j = 0
        · exact .inl zero
        · refine .inr ?_
          have := Nat.mul_le_mul_right (laterLimit p start.tcpMss) (Nat.sub_le j 1)
          omega
    | ended b j frame service parked inOrder header last next final =>
        exact next_ne_final unwrapped (j := j + 1) (by omega) (.inr last) next final
  unfold HttpConnection.somethingToSend
  rw [same.outputHandler.trans handler]
  dsimp only
  split
  · rfl
  · simp [same.tcpState.trans established, differs]

/-- What holds during a response is that it is framed. -/
theorem Underway.framed (underway : Underway p a contents start t n s)
    (handler : start.outputHandler = some h) (ready : start.request.readyToSend)
    (noAck : start.cometSendAck = false) (established : start.tcpState = .established)
    (generator : (p.handler h).data = .generator resource)
    (noComet : (p.handler h).handlerComet = false) (noStream : (p.handler h).handlerStream = false)
    (room : serviceHeadersSize .chunks < p.maxOutSize start.tcpMss)
    (unwrapped : Unwrapped (firstLimit p start.tcpMss) (laterLimit p start.tcpMss) contents.length)
    : Framed p a contents
      (responsePayloads (firstLimit p start.tcpMss) (laterLimit p start.tcpMss) contents) t n s := by
  have serve := underway.serve (h := h) handler ready noAck generator noComet noStream room
  obtain ⟨plenty, more, left, c, sent, whole, count, holds, same, rest⟩ := underway
  obtain ⟨first_pos, later_pos⟩ := limits_pos room
  have total := congrArg List.length whole
  rw [List.length_append, count] at total
  refine {
    decodes := decode_response first_pos (UInt16.toNat_lt _) later_pos (UInt16.toNat_lt _)
    sent := ?_
    bounded := by omega
    goesOn := fun less => ?_
    ends := fun all => ?_
  }
  · rw [sent, List.drop_left, ← whole, ← count, List.take_left]
  · cases left with
    | nil =>
        rw [List.length_nil] at total
        omega
    | cons payload left =>
        refine ⟨c, holds, left_somethingToSend rest same handler established unwrapped, fun chosen => ?_⟩
        obtain ⟨s', step, -⟩ := serve chosen
        exact ⟨s', step⟩
  · have none : left = [] := List.length_eq_zero_iff.mp (by omega)
    subst none
    have final := rest.final_of_nil
    refine ⟨c, holds, final, fun chosen => ?_⟩
    have able := (chosen.smewsSend holds (by rw [same.ready]; exact ready)
      (same.cometSendAck.trans noAck) (same.outputHandler.trans handler) generator).1
    rw [not_ableToSend_of_final (same.outputHandler.trans handler) generator
      (same.cometSendAck.trans noAck) final] at able
    cases able

theorem serves_cons (turn : Turn) (turns : List Turn)
    : serves (turn :: turns) = serves turns + if turn.isServe then 1 else 0 :=
  List.countP_cons

/-- What holds during a response stays so, by induction on the turns. -/
theorem Underway.run (handler : start.outputHandler = some h) (ready : start.request.readyToSend)
    (noAck : start.cometSendAck = false) (generator : (p.handler h).data = .generator resource)
    (noComet : (p.handler h).handlerComet = false) (noStream : (p.handler h).handlerStream = false)
    (room : serviceHeadersSize .chunks < p.maxOutSize start.tcpMss) {turns : List Turn}
    (run : Run (ResponseStep p a) s turns s') (underway : Underway p a contents start t n s)
    : Underway p a contents start t (n + serves turns) s' := by
  induction run generalizing n with
  | nil s => exact underway
  | @cons s mid s' turn turns first rest ih =>
      rw [serves_cons]
      cases turn with
      | serve =>
          obtain ⟨chosen, step⟩ := first
          obtain ⟨mid', step', next, -⟩ := underway.serve handler ready noAck generator noComet noStream
            room chosen
          have same : mid' = mid := Option.some.inj (step'.symm.trans step)
          subst same
          have after := ih next
          rwa [show n + 1 + serves turns = n + (serves turns + if Turn.serve.isServe then 1 else 0) by
            simp [Turn.isServe]; omega] at after
      | other event =>
          have after := ih (underway.other first.2)
          exact after

/-- A response that no segment was sent of yet. -/
theorem Requested.framed {function : Cont} (requested : Requested p s a h c function)
    (plenty : Plentiful s.heap) (generator : (p.handler h).data = .generator resource)
    (noComet : (p.handler h).handlerComet = false) (noStream : (p.handler h).handlerStream = false)
    (room : serviceHeadersSize .chunks < p.maxOutSize c.tcpMss)
    : Framed p a (outputs function)
      (responsePayloads (firstLimit p c.tcpMss) (laterLimit p c.tcpMss) (outputs function)) s 0 s := by
  obtain ⟨first_pos, later_pos⟩ := limits_pos room
  have some_ : responsePayloads (firstLimit p c.tcpMss) (laterLimit p c.tcpMss) (outputs function)
      ≠ [] := by
    unfold responsePayloads
    split <;> exact List.cons_ne_nil _ _
  refine {
    decodes := decode_response first_pos (UInt16.toNat_lt _) later_pos (UInt16.toNat_lt _)
    sent := by simp [payloadsTo]
    bounded := Nat.zero_le _
    goesOn := fun _ => ⟨c, requested.holds, ?_, fun chosen => ?_⟩
    ends := fun none => absurd (List.length_eq_zero_iff.mp none.symm) some_
  }
  · have differs : c.nextOutseqno ≠ c.finalOutseqno := by
      rw [requested.final]
      grind
    unfold HttpConnection.somethingToSend
    rw [requested.handler]
    dsimp only
    split
    · rfl
    · simp [requested.established, differs]
  · obtain ⟨s', -, -, step, -⟩ := Requested.first requested plenty generator noComet noStream room
      chosen
    exact ⟨s', step⟩

/-- A response of a generator is framed in every run that does not touch it: after each number of
segments the payloads sent are those of a message that a client reads the contents back from, it goes
on until they are all sent, and ends with them. No prefix of it may end at the sequence number before
its first one.
-/
theorem generated_response_framed {function : Cont} {turns : List Turn}
    (requested : Requested p s a h c function) (plenty : Plentiful s.heap)
    (generator : (p.handler h).data = .generator resource)
    (noComet : (p.handler h).handlerComet = false) (noStream : (p.handler h).handlerStream = false)
    (room : serviceHeadersSize .chunks < p.maxOutSize c.tcpMss)
    (unwrapped : Unwrapped (firstLimit p c.tcpMss) (laterLimit p c.tcpMss) (outputs function).length)
    (begins : ∀ turn ∈ turns.head?, turn = .serve) (run : Run (ResponseStep p a) s turns s')
    : Framed p a (outputs function)
      (responsePayloads (firstLimit p c.tcpMss) (laterLimit p c.tcpMss) (outputs function)) s
      (serves turns) s' := by
  cases run with
  | nil => exact Requested.framed requested plenty generator noComet noStream room
  | @cons s mid s' turn turns first rest =>
      have serve : turn = .serve := begins turn rfl
      subst serve
      obtain ⟨mid', payload, left, step, whole, segment⟩ := Requested.first requested plenty generator
        noComet noStream room first.1
      have same : mid' = mid := Option.some.inj (step.symm.trans first.2)
      subst same
      have none : s.sent = s.sent ++ [] := (List.append_nil _).symm
      have underway : Underway p a (outputs function) c s 1 mid' :=
        Underway.of_segment plenty none whole.symm ⟨rfl, rfl, rfl, rfl, rfl, rfl, rfl, rfl⟩ segment
      have after := Underway.run requested.handler requested.ready requested.noAck generator noComet
        noStream room rest underway
      rw [serves_cons, Nat.add_comm]
      exact after.framed requested.handler requested.ready requested.noAck requested.established
        generator noComet noStream room unwrapped

--------------------------------------------------
-- A page
--------------------------------------------------

/-- A build whose only page, at `/a`, is a text, with an output buffer of a given size. -/
def textPage (text : List UInt8) (size : UInt16) (positive : 0 < size) : Program :=
  {
    oneGenerator ⟨.get fun _ _ => writes text, .idempotent⟩ noArgs with
    outputBufferSize := size
    outputBufferSize_pos := positive
    resource_ne_control := fun _ _ _ => HandlerData.noConfusion
  }

/-- A connection on which the page was requested. -/
def requesting : HttpConnection :=
  {
    ipAddr := 0xc0a80105
    outputHandler := some (.resource 0)
    tcpMss := 1000
    tcpState := .established
    nextOutseqno := 0x42b7a492
    finalOutseqno := 0x42b7a491
    currentInseqno := 1020
    port := 4000
    cwnd := 8192
    inflight := 0
    generatorService := none
    transmissionTime := 1
    cometPassive := false
    cometSendAck := false
    cometStreaming := false
    request := {
      parsingState := .out
      blob := blobHttpRqt
      args := .null
      currArg := 0
      argRefIndex := 128
      postUrlDetected := false
      postData := none
      readyToSend := true
    }
  }

/-- A server with this connection. -/
def requestedServer : Server :=
  {
    bootServer with
    heap := { bootServer.heap with next := 1 }
    connections := [⟨0, .http requesting⟩]
  }

/-- The request leads there. -/
example
    : ((requestOf 1000).foldlM (next (oneGenerator hello noArgs)) bootServer).map (·.connections)
      = some requestedServer.connections := by
  decide +kernel

theorem outputs_writes (text : List UInt8) : outputs (writes text) = text := by
  induction text with
  | nil => rfl
  | cons x text ih => rw [writes, outputs, ih]

theorem requested_page (text : List UInt8) (size : UInt16) (positive : 0 < size)
    : Requested (textPage text size positive) requestedServer 0 (.resource 0) requesting
      (writes text) :=
  {
    holds := rfl
    handler := rfl
    ready := rfl
    noAck := rfl
    established := rfl
    active := rfl
    fresh := rfl
    final := rfl
    starts := rfl
  }

theorem requestedServer_plentiful : Plentiful requestedServer.heap := fun _ => rfl

/-- A server with one connection serves it when it has something to send and room. -/
theorem chosen_alone {c : HttpConnection} (ring : s.connections = [⟨a, .http c⟩])
    (rst : s.rstConnection.port = 0) (something : c.somethingToSend p) (active : c.cometPassive = false)
    (room : c.inflight.toNat + c.tcpMss.toNat ≤ c.cwnd.toNat)
    : Chosen p s a := by
  refine ⟨rst, 0, ?_, by simp [ring]⟩
  simp [ring, Connection.ableToSend, something, active, room]

/-- A text that fits one segment is framed by a content length. -/
theorem generated_response_framed_hello
    : ∃ s', Run (ResponseStep (textPage (ascii "hello") 256 (by decide)) 0) requestedServer [.serve] s'
      ∧ Framed (textPage (ascii "hello") 256 (by decide)) 0 (ascii "hello")
        [generatorPayload .standard (ascii "hello")] requestedServer 1 s' := by
  set page := textPage (ascii "hello") 256 (by decide) with page_eq
  have requested := requested_page (ascii "hello") 256 (by decide)
  have generator : (page.handler (.resource 0)).data
      = .generator ⟨.get fun _ _ => writes (ascii "hello"), .idempotent⟩ := rfl
  have room : serviceHeadersSize .chunks < page.maxOutSize requesting.tcpMss := by decide
  have chosen : Chosen page requestedServer 0 :=
    chosen_alone rfl rfl (by decide) rfl (by decide)
  obtain ⟨s', -, -, step, -⟩ := Requested.first requested requestedServer_plentiful generator rfl rfl
    room chosen
  have run : Run (ResponseStep page 0) requestedServer [.serve] s' := .cons ⟨chosen, step⟩ (.nil s')
  have begins : ∀ turn ∈ [Turn.serve].head?, turn = .serve := by
    intro turn first
    cases first
    rfl
  have framed := generated_response_framed requested requestedServer_plentiful generator rfl rfl room
    (.of_le (by decide)) begins run
  rw [outputs_writes] at framed
  exact ⟨s', run, framed⟩

--------------------------------------------------
-- Acknowledgements
--------------------------------------------------

/-- A segment that only acknowledges data. -/
structure PlainAck (seg : TcpSegment) : Prop where
  port : seg.dstPort % 256 = 80
  noFin : seg.has tcpFin = false
  noRst : seg.has tcpRst = false
  noOptions : seg.options = []
  noPayload : seg.payload = []
  valid : seg.checksumValid

/-- A connection after an acknowledgement. -/
def acked (seg : TcpSegment) (c : HttpConnection) : HttpConnection :=
  {
    c with
    inflight :=
      if seg.ackno ≠ 0 ∧ seg.ackno ≤ c.nextOutseqno then (c.nextOutseqno - seg.ackno).toUInt16
      else c.inflight
    cwnd := seg.window
    currentInseqno := if c.currentInseqno ≤ seg.endSeqno then seg.endSeqno else c.currentInseqno
  }

variable {seg : TcpSegment}

/-- An acknowledgement that is no duplicate, for a response that goes on. -/
theorem beforeParsing_ack (plain : PlainAck seg) (handler : c.outputHandler = some h)
    (established : c.tcpState = .established) (unfinished : c.nextOutseqno ≠ c.finalOutseqno)
    (noDuplicate : c.nextOutseqno - c.inflight.toUInt32 = seg.ackno → c.nextOutseqno = seg.ackno)
    : ∃ new clean, beforeParsing p seg c = (new, acked seg c, clean, none) := by
  set d := { c with inflight := (acked seg c).inflight } with d_eq
  obtain ⟨clean, acknowledged⟩ : ∃ clean, acknowledge c seg.ackno = (d, clean) := by
    have kept : (if c.nextOutseqno - c.inflight.toUInt32 = seg.ackno then
        { c with nextOutseqno := seg.ackno } else c) = c := by
      split
      · rename_i duplicate
        rw [← noDuplicate duplicate]
      · rfl
    unfold acknowledge
    rw [kept]
    dsimp only
    by_cases honoured : seg.ackno ≠ 0 ∧ seg.ackno ≤ c.nextOutseqno
    · rw [if_pos honoured]
      exact ⟨c.generatorService.isSome, by simp only [d_eq, acked, if_pos honoured]⟩
    · rw [if_neg honoured]
      exact ⟨false, by simp only [d_eq, acked, if_neg honoured]⟩
  have goesOn : responseDone p d = false := by
    have something : d.somethingToSend p := by
      unfold HttpConnection.somethingToSend
      rw [show d.outputHandler = some h from handler]
      dsimp only
      split
      · rfl
      · simp [d_eq, established, unfinished]
    simp [responseDone, something]
  have cleared : clearHandler p d = (d, none) := by
    rw [clearHandler, goesOn, if_neg Bool.false_ne_true]
  obtain ⟨new, sequenced⟩ : ∃ new, Input.sequence seg d
      = (new, { d with currentInseqno := (acked seg c).currentInseqno }) := by
    unfold Input.sequence
    dsimp only
    by_cases order : c.currentInseqno ≤ seg.endSeqno
    · rw [if_pos (show d.currentInseqno ≤ seg.endSeqno from order)]
      simp [tcpTransition, d_eq, established, plain.noFin, plain.noRst, acked, order]
    · rw [if_neg (show ¬ d.currentInseqno ≤ seg.endSeqno from order)]
      simp [d_eq, acked, order]
  refine ⟨new, clean, ?_⟩
  unfold beforeParsing
  rw [acknowledged]
  dsimp only
  rw [cleared]
  dsimp only
  rw [sequenced]
  simp [negotiate, plain.noOptions, d_eq, acked]

theorem Still.freeInFlight (h : Heap) (persistent : Bool) (r : InFlight)
    : Still h (h.freeInFlight p persistent r) := by
  unfold Heap.freeInFlight
  split
  · exact (Still.memFree _ _ _).trans (.memFree _ _ _)
  · exact ((Still.memFree _ _ _).trans (.memFree _ _ _)).trans (.memFree _ _ _)
  · exact .memFree _ _ _

theorem cleanService_recorded (b : Addr) (ack : Option UInt32) (s : Server)
    : Recorded b s (s.cleanService p b ack) := by
  have freed (persistent : Bool) (rs : List InFlight) (h : Heap)
      : Still h (rs.foldl (fun h r => h.freeInFlight p persistent r) h) := by
    induction rs generalizing h with
    | nil => exact .refl h
    | cons r rs ih => exact (Still.freeInFlight h persistent r).trans (ih _)
  exact ⟨freed _ _ _, rfl, rfl, rfl, rfl, _, Function.update_self b _ s.service⟩

/-- The deferred work on the service of a response that goes on. -/
theorem commitService_ack (ackno : UInt32) (d : Pending) (noFree : d.freeHandler = none)
    : ∃ b t, commitService p ackno d s = some (d.connection, t) ∧ Recorded b s t
      ∧ ∀ b', d.connection.generatorService = some b' → b' = b := by
  unfold commitService
  rw [noFree]
  cases d.connection.generatorService with
  | none => exact ⟨0, s, rfl, .of_heap (.refl _), nofun⟩
  | some b =>
      dsimp only
      refine ⟨b, if d.cleanService then s.cleanService p b (some ackno) else s, ?_, ?_,
        fun b' eq => (Option.some.inj eq).symm⟩
      · split <;> rfl
      · split
        · exact cleanService_recorded b _ s
        · exact .of_heap (.refl _)

theorem process_ack (plain : PlainAck seg) (handler : c.outputHandler = some h)
    (established : c.tcpState = .established) (unfinished : c.nextOutseqno ≠ c.finalOutseqno)
    (noDuplicate : c.nextOutseqno - c.inflight.toUInt32 = seg.ackno → c.nextOutseqno = seg.ackno)
    (heap : Heap)
    : ∃ clean, process p seg c heap = some (.inl {
      connection := acked seg c
      heap
      dropped := seg.payload
      cleanService := clean
      freeHandler := none
    }) := by
  obtain ⟨new, clean, before⟩ :=
    beforeParsing_ack (p := p) plain handler established unfinished noDuplicate
  have unparsed : isParsed seg new (acked seg c) = false := by simp [isParsed, plain.noPayload]
  have unqueued : queueAck seg (acked seg c) = acked seg c := by
    rw [queueAck, if_neg]
    rintro ⟨-, -, some_⟩
    exact some_ plain.noPayload
  refine ⟨clean, ?_⟩
  unfold process
  rw [before]
  dsimp only
  rw [unparsed, if_neg Bool.false_ne_true, unqueued]

/-- An acknowledgement of a part of a response does not touch the rest of it, and moves the window.
-/
theorem ack_undisturbed {i : Nat} (plain : PlainAck seg) (holds : Holds s a c)
    (found : findConnection p s seg = (some i, c)) (at_i : s.connections[i]? = some ⟨a, .http c⟩)
    (handler : c.outputHandler = some h) (established : c.tcpState = .established)
    (unfinished : c.nextOutseqno ≠ c.finalOutseqno)
    (noDuplicate : c.nextOutseqno - c.inflight.toUInt32 = seg.ackno → c.nextOutseqno = seg.ackno)
    : ∃ s', Step p s (.receive seg) s' ∧ Undisturbed a s s'
      ∧ s'.connections = (s.setHttp i (acked seg c)).connections
      ∧ s'.rstConnection = s.rstConnection := by
  obtain ⟨clean, processed⟩ :=
    process_ack (p := p) plain handler established unfinished noDuplicate s.heap
  obtain ⟨b, t, service, recorded, own⟩ := commitService_ack (p := p) (s := s) seg.ackno
    {
      connection := acked seg c
      heap := s.heap
      dropped := seg.payload
      cleanService := clean
      freeHandler := none
    } rfl
  have open_ : (acked seg c).tcpState ≠ .listen := by
    rw [show (acked seg c).tcpState = .established from established]
    exact nofun
  have stored : (t.setHttp i (acked seg c)).connections = (s.setHttp i (acked seg c)).connections := by
    simp only [Server.setHttp, recorded.connections]
  refine ⟨t.setHttp i (acked seg c), ?_, {
    exhausted := recorded.heap.exhausted
    sent := ⟨[], by rw [List.append_nil]; exact recorded.sent, rfl⟩
    connection := fun c' holds' => ?_
    service := fun c' b' holds' own' => ?_
  }, stored, recorded.rst⟩
  · show smewsReceive p seg s = _
    unfold smewsReceive
    rw [if_pos plain.port, found]
    dsimp only
    rw [processed, Option.bind_eq_bind, Option.bind_some]
    dsimp only
    rw [if_pos plain.valid]
    unfold commit
    rw [service, Option.bind_eq_bind, Option.bind_some]
    dsimp only
    rw [if_neg open_]
  · have same := holds.unique holds'
    subst same
    have after := holds.setHttp at_i (acked seg c)
    refine ⟨acked seg c, ?_, rfl⟩
    rw [Holds, stored]
    exact after
  · have same := holds.unique holds'
    subst same
    have eq := own b' own'
    subst eq
    exact ⟨recorded.service, fun _ _ parked => parked.still recorded.heap⟩

--------------------------------------------------
-- A response that stops
--------------------------------------------------

/-- The size of a page with an output buffer of 351 bytes whose 11963697th segment ends at the
sequence number before the first one of the response.
-/
def stoppingSize : Nat := 4199257648

/-- The client acknowledges everything. -/
def ackOf (c : HttpConnection) : TcpSegment :=
  clientSegment c.currentInseqno c.nextOutseqno tcpAck 8192 [] [] bare_fits

/-- A server with only the connection of a response, after a number of segments. -/
structure Alone (text : List UInt8) (n : Nat) (s : Server) : Prop where
  underway : Underway (textPage text 351 (by decide)) 0 text requesting requestedServer n s
  rst : s.rstConnection.port = 0
  one : s.connections.length = 1

/-- The sequence number after a number of segments with chunks. -/
theorem next_after {text : List UInt8} {page : Program} {n : Nat} {payload : List UInt8}
    {left : List (List UInt8)} (limits : firstLimit page 1000 = 351 ∧ laterLimit page 1000 = 351)
    (size : text.length = stoppingSize) (le : n ≤ 11963697)
    (rest : Left page text requesting c s n (payload :: left))
    : 1 ≤ n ∧ c.nextOutseqno = requesting.nextOutseqno + UInt32.ofNat (359 * n + 72)
      ∧ c.finalOutseqno = requesting.nextOutseqno - 1 := by
  have mss : requesting.tcpMss = 1000 := rfl
  have chunks (j : Nat) (few : j < 11963697) : chunksLength 351 351 text.length j = 359 * (j + 1) + 72 := by
    rw [chunksLength, size, stoppingSize]
    simp only [serviceHeadersSize, chunkLengthSize]
    omega
  generalize whole : payload :: left = payloads at rest
  cases rest with
  | complete n final => cases whole
  | suspended b j x k service parked inOrder header rest next final =>
      rw [mss, limits.1, limits.2, chunks j (by omega)] at next
      exact ⟨by omega, next, final⟩
  | ended b j frame service parked inOrder header last next final =>
      rw [mss, limits.1, limits.2, chunks (j + 1) (by omega)] at next
      exact ⟨by omega, next, final⟩

theorem limits_page (text : List UInt8)
    : firstLimit (textPage text 351 (by decide)) 1000 = 351
      ∧ laterLimit (textPage text 351 (by decide)) 1000 = 351 :=
  ⟨rfl, rfl⟩

theorem room_page (text : List UInt8)
    : serviceHeadersSize .chunks < (textPage text 351 (by decide)).maxOutSize requesting.tcpMss := by
  show serviceHeadersSize .chunks < (1000 >>> 5 <<< 5 : Nat)
  decide

/-- The response has two segments more than the one at which it stops. -/
theorem length_response {text : List UInt8} (size : text.length = stoppingSize)
    : 11963699 ≤ (responsePayloads 351 351 text).length := by
  have pieces_ := length_le_pieces (show 0 < 351 by decide) (text.drop 351)
  rw [List.length_drop, size] at pieces_
  rw [responsePayloads, if_neg (by rw [size]; decide), List.length_cons, laterPayloads,
    List.length_map, List.length_append, List.length_singleton]
  simp only [stoppingSize] at pieces_
  omega

variable {text : List UInt8}

/-- The connection of a response that goes on. -/
theorem Alone.connection (alone : Alone text n s) (size : text.length = stoppingSize)
    (le : n ≤ 11963697)
    : ∃ c, Holds s 0 c ∧ s.connections = [⟨0, .http c⟩] ∧ SameRequest requesting c ∧ 1 ≤ n
      ∧ c.nextOutseqno = requesting.nextOutseqno + UInt32.ofNat (359 * n + 72)
      ∧ c.finalOutseqno = requesting.nextOutseqno - 1 := by
  obtain ⟨-, more, left, c, -, whole, count, holds, same, rest⟩ := alone.underway
  have limits := limits_page text
  have mss : requesting.tcpMss = 1000 := rfl
  have total := congrArg List.length whole
  rw [List.length_append, count, mss, limits.1, limits.2] at total
  have long := length_response size
  cases left with
  | nil =>
      rw [List.length_nil] at total
      omega
  | cons payload left =>
      obtain ⟨positive, next, final⟩ := next_after limits size le rest
      refine ⟨c, holds, ?_, same, positive, next, final⟩
      obtain ⟨k, ring⟩ := List.length_eq_one_iff.mp alone.one
      have own := holds.mem
      rw [ring] at own ⊢
      rw [List.mem_singleton.mp own]

/-- Before the segment at which it stops, everything sent can be acknowledged, and the next segment
is sent.
-/
theorem Alone.step (alone : Alone text n s) (size : text.length = stoppingSize) (less : n < 11963697)
    : ∃ turns s', Run (ResponseStep (textPage text 351 (by decide)) 0) s turns s'
      ∧ serves turns = 1 ∧ Alone text (n + 1) s' := by
  obtain ⟨c, holds, ring, same, positive, next, final⟩ := alone.connection size less.le
  set page := textPage text 351 (by decide) with page_eq
  have sum : (UInt32.ofNat (359 * n + 72)).toNat = 359 * n + 72 := by
    rw [UInt32.toNat_ofNat']
    omega
  have begin_ : requesting.nextOutseqno.toNat = 1119331474 := rfl
  have nonzero : c.nextOutseqno ≠ 0 := by
    intro zero
    have := congrArg UInt32.toNat (next.symm.trans zero)
    rw [UInt32.toNat_add, sum, begin_] at this
    simp only [UInt32.toNat_zero] at this
    omega
  have unfinished : c.nextOutseqno ≠ c.finalOutseqno := by
    intro eq
    rw [next, final] at eq
    have : UInt32.ofNat (359 * n + 72) + 1 = 0 := by grind
    have := congrArg UInt32.toNat this
    rw [UInt32.toNat_add, sum] at this
    simp only [UInt32.toNat_one, UInt32.toNat_zero] at this
    omega
  have flags : (tcpAck &&& tcpFin != 0) = false ∧ (tcpAck &&& tcpRst != 0) = false := by decide
  have plain : PlainAck (ackOf c) := ⟨rfl, flags.1, flags.2, rfl, rfl, rfl⟩
  have peer : isPeer (ackOf c) ⟨0, .http c⟩ := by
    simp only [isPeer, same.port, same.ipAddr]
    rfl
  have found : findConnection page s (ackOf c) = (some 0, c) := by
    simp [findConnection, ring, peer]
  have handler : c.outputHandler = some (.resource 0) := same.outputHandler
  obtain ⟨t, received, undisturbed, stored, rst⟩ := ack_undisturbed (p := page) plain holds found
    (by simp [ring]) handler same.tcpState unfinished fun _ => rfl
  have underway := alone.underway.other undisturbed
  set d := acked (ackOf c) c with d_eq
  have ring' : t.connections = [⟨0, .http d⟩] := by
    rw [stored]
    simp [Server.setHttp, ring]
  have something : d.somethingToSend page := by
    have notControl : page.isControl (.resource 0) = false := rfl
    have state : c.tcpState = .established := same.tcpState
    simp [HttpConnection.somethingToSend, d_eq, acked, handler, notControl, state, unfinished]
  have window : d.inflight = 0 := by
    simp [d_eq, acked, ackOf, clientSegment, nonzero]
  have mss : d.tcpMss = 1000 := same.tcpMss
  have chosen : Chosen page t 0 := by
    refine chosen_alone ring' (by rw [rst]; exact alone.rst) something same.cometPassive ?_
    rw [window, mss]
    show _ ≤ (8192 : UInt16).toNat
    decide
  obtain ⟨s', step, underway', rst', one⟩ := underway.serve rfl rfl rfl rfl rfl rfl (room_page text) chosen
  refine ⟨[.other (.receive (ackOf c)), .serve], s',
    .cons ⟨received, undisturbed⟩ (.cons ⟨chosen, step⟩ (.nil s')), rfl, underway', ?_, ?_⟩
  · rw [rst', rst]
    exact alone.rst
  · rw [one, ring']
    rfl

/-- The response reaches the segment at which it stops, by induction on the segments before it. -/
theorem alone_after (size : text.length = stoppingSize) (n : Nat) (le : n < 11963697)
    : ∃ turns s', Run (ResponseStep (textPage text 351 (by decide)) 0) requestedServer
        (.serve :: turns) s'
      ∧ serves (.serve :: turns) = n + 1 ∧ Alone text (n + 1) s' := by
  set page := textPage text 351 (by decide) with page_eq
  induction n with
  | zero =>
      have requested := requested_page text 351 (by decide)
      have chosen : Chosen page requestedServer 0 := chosen_alone rfl rfl rfl rfl (by decide)
      obtain ⟨s', payload, left, step, whole, segment⟩ := Requested.first requested
        requestedServer_plentiful rfl rfl rfl (room_page text) chosen
      rw [outputs_writes] at whole segment
      refine ⟨[], s', .cons ⟨chosen, step⟩ (.nil s'), rfl, ?_, by rw [segment.rst]; rfl, segment.length⟩
      have none : requestedServer.sent = requestedServer.sent ++ [] := rfl
      exact Underway.of_segment requestedServer_plentiful none whole.symm
        ⟨rfl, rfl, rfl, rfl, rfl, rfl, rfl, rfl⟩ segment
  | succ n ih =>
      obtain ⟨turns, s, run, count, alone⟩ := ih (by omega)
      obtain ⟨turns', s', run', count', alone'⟩ := alone.step size (by omega)
      refine ⟨turns ++ turns', s', run.append run', ?_, alone'⟩
      rw [← List.cons_append, serves, List.countP_append]
      exact congrArg₂ (· + ·) count count'

/-- A text of more than four gigabytes is cut: when the sequence number before the first one of the
response is reached, nothing more is sent, and a client has no message to read.
-/
theorem stops_at_wrap (size : text.length = stoppingSize)
    : ∃ turns s', Run (ResponseStep (textPage text 351 (by decide)) 0) requestedServer
        (.serve :: turns) s'
      ∧ (∃ c, Holds s' 0 c ∧ c.finalOutseqno = c.nextOutseqno)
      ∧ HttpMessage.decode (payloadsTo 0 (s'.sent.drop requestedServer.sent.length)).flatten = none := by
  obtain ⟨turns, s', run, -, alone⟩ := alone_after size 11963696 (by decide)
  have alone : Alone text 11963697 s' := alone
  refine ⟨turns, s', run, ?_, ?_⟩
  · obtain ⟨c, holds, -, -, -, next, final⟩ := alone.connection size (by decide)
    refine ⟨c, holds, ?_⟩
    rw [next, final]
    rfl
  · obtain ⟨-, more, left, c, sent, whole, count, -⟩ := alone.underway
    have limits := limits_page text
    have mss : requesting.tcpMss = 1000 := rfl
    rw [mss, limits.1, limits.2] at whole
    have long := length_response size
    have cut : payloadsTo 0 more = (responsePayloads 351 351 text).take 11963697 := by
      rw [← whole, ← count, List.take_left]
    rw [sent, List.drop_left, cut]
    exact decode_prefix (by decide) (by decide) (by decide) (by decide) (by omega)

/-- Such a text. -/
def stoppingText : List UInt8 := List.replicate stoppingSize 0

/-- The response that stops is not framed. -/
theorem generated_response_fails_long
    : ∃ turns s', Run (ResponseStep (textPage stoppingText 351 (by decide)) 0) requestedServer
        (.serve :: turns) s'
      ∧ (∃ c, Holds s' 0 c ∧ c.finalOutseqno = c.nextOutseqno)
      ∧ HttpMessage.decode (payloadsTo 0 (s'.sent.drop requestedServer.sent.length)).flatten = none :=
  stops_at_wrap List.length_replicate

end Smews.System
