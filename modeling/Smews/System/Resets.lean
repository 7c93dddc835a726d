import Smews.Library.Slot
import Smews.System.LifeCycle
import Smews.System.StreamDelivery

/-! Resets: which segments are refused, and which of them are answered. `rst_connection` is a slot for one reset, which
the next refused segment overwrites.
-/

namespace Smews.System

open Smews.Core Input Output Runs

variable {p : Program}

--------------------------------------------------
-- Refused segments
--------------------------------------------------

/-- A segment that is refused: its peer has no connection and gets none, because it does not ask for one or because
there is no memory for it.
-/
structure Refused (s : Server) (seg : TcpSegment) : Prop where
  port : seg.dstPort % 256 = 80
  valid : seg.checksumValid
  unknown : ∀ k ∈ s.connections, ¬ isPeer seg k
  noRoom : seg.has tcpSyn → s.heap.exhausted s.heap.next

instance (s : Server) (seg : TcpSegment) : Decidable (Refused s seg) :=
  decidable_of_iff (seg.dstPort % 256 = 80 ∧ seg.checksumValid ∧ (∀ k ∈ s.connections, ¬ isPeer seg k)
      ∧ (seg.has tcpSyn → s.heap.exhausted s.heap.next))
    ⟨fun all => ⟨all.1, all.2.1, all.2.2.1, all.2.2.2⟩,
      fun refused => ⟨refused.port, refused.valid, refused.unknown, refused.noRoom⟩⟩

/-- The end of a segment, where a `SYN` counts for a byte. -/
def stopOf (seg : TcpSegment) : UInt32 := if seg.has tcpSyn then seg.endSeqno + 1 else seg.endSeqno

/-- The reset that answers a segment: it begins at the acknowledgement number of the segment, and acknowledges all of
it.
-/
def refusal (seg : TcpSegment) : Packet :=
  {
    destination := seg.srcAddr
    body := .tcp seg.srcPort seg.ackno (stopOf seg) (tcpRst ||| tcpAck) [] []
  }

/-- The reset of `rst_connection`. -/
def awaiting (s : Server) : Option Packet :=
  let r := s.rstConnection
  if r.port = 0 then none
  else
    some {
      destination := r.ipAddr
      body := .tcp r.port r.nextOutseqno r.currentInseqno (tcpRst ||| tcpAck) [] []
    }

def isReset (packet : Packet) : Bool :=
  match packet.body with
  | .tcp _ _ _ flags _ _ => flags &&& tcpRst ≠ 0
  | .gpip _ _ => false

/-- The resets that were sent. -/
def resetsSent (s : Server) : List Packet := (s.sent.map Prod.snd).filter isReset

/-- The slot for resets, and the resets that it delivered. -/
def slotOf (s : Server) : Slot.State Packet := ⟨awaiting s, resetsSent s⟩

/-- What an event does to the slot. A reset for port 0 is never sent. -/
def callOf (s : Server) : Event → Slot.Call Packet
  | .receive seg =>
      if Refused s seg then
        if seg.srcPort = 0 then .clear else .put (refusal seg)
      else .other
  | .send => .take
  | .receiveGpIp .. | .retransmit | .push _ | .packetOut .. => .other

section Receive

variable {s s' : Server} {seg : TcpSegment}

/-- The headers of a segment whose peer has no connection. -/
theorem received_unknown (s : Server) (seg : TcpSegment)
    : (received p seg (listenConnection p s seg)).tcpState = (if seg.has tcpSyn then .synRcvd else .listen)
      ∧ (received p seg (listenConnection p s seg)).currentInseqno = stopOf seg := by
  have order : (listenConnection p s seg).currentInseqno ≤ seg.endSeqno := UInt32.zero_le
  obtain ⟨d, state, current, state', current'⟩ := received_sequenced (p := p) order
  rw [state', current', tcpTransition, state, stopOf]
  dsimp only [listenConnection]
  split
  · rw [current]
    exact ⟨rfl, rfl⟩
  · exact ⟨state, current⟩

theorem findConnection_unknown (unknown : ∀ k ∈ s.connections, ¬ isPeer seg k)
    : findConnection p s seg = (none, listenConnection p s seg) := by
  rw [findConnection, List.findIdx?_eq_none_iff.mpr fun k mem => by simpa using unknown k mem]

/-- A segment whose peer has no connection is not parsed. -/
theorem process_unknown (s : Server) (seg : TcpSegment)
    : process p seg (listenConnection p s seg) s.heap = some (.inl {
        connection := received p seg (listenConnection p s seg)
        heap := s.heap
        dropped := seg.payload
        cleanService := (beforeParsing p seg (listenConnection p s seg)).2.2.1
        freeHandler := (beforeParsing p seg (listenConnection p s seg)).2.2.2
      }) := by
  obtain ⟨state, -⟩ := received_unknown (p := p) s seg
  have notOpen : (received p seg (listenConnection p s seg)).tcpState ≠ .established := by
    rw [state]
    split <;> nofun
  have notParsed : ¬ isParsed seg (beforeParsing p seg (listenConnection p s seg)).1
      (received p seg (listenConnection p s seg)) := by
    simp [isParsed, notOpen]
  have notQueued : queueAck seg (received p seg (listenConnection p s seg))
      = received p seg (listenConnection p s seg) := by
    rw [queueAck, if_neg fun queued => notOpen queued.2.1]
  have plain : process p seg (listenConnection p s seg) s.heap = some (.inl {
        connection := queueAck seg (received p seg (listenConnection p s seg))
        heap := s.heap
        dropped := seg.payload
        cleanService := (beforeParsing p seg (listenConnection p s seg)).2.2.1
        freeHandler := (beforeParsing p seg (listenConnection p s seg)).2.2.2
      }) :=
    if_neg notParsed
  rw [plain, notQueued]

/-- The reset that is to answer a segment. -/
def rstFor (seg : TcpSegment) : RstConnection := ⟨seg.srcAddr, stopOf seg, seg.ackno, seg.srcPort⟩

/-- What a segment does whose peer has no connection. -/
theorem smewsReceive_unknown (port : seg.dstPort % 256 = 80) (unknown : ∀ k ∈ s.connections, ¬ isPeer seg k)
    : smewsReceive p seg s =
      if seg.checksumValid then
        if seg.has tcpSyn then
          match s.addConnection p (.http (received p seg (listenConnection p s seg))) with
          | (none, s) => some { s with rstConnection := rstFor seg }
          | (some _, s) => some s
        else some { s with rstConnection := rstFor seg }
      else some s := by
  have frame := received_frame (p := p) seg (listenConnection p s seg)
  obtain ⟨state, current⟩ := received_unknown (p := p) s seg
  unfold smewsReceive
  rw [if_pos port, findConnection_unknown unknown]
  dsimp only
  rw [process_unknown]
  dsimp only [Option.bind_eq_bind, Option.bind_some]
  split
  swap
  · rfl
  generalize received p seg (listenConnection p s seg) = c at *
  have rst : RstConnection.mk c.ipAddr c.currentInseqno seg.ackno c.port = rstFor seg := by
    rw [frame.ipAddr, frame.port, current]
    rfl
  rw [commit, commitService_none frame.generatorService]
  dsimp only [Option.bind_eq_bind, Option.bind_some]
  rw [state, rst]
  by_cases syn : seg.has tcpSyn
  · rw [if_pos syn, if_pos syn]
    exact if_pos rfl
  · rw [if_neg syn, if_neg syn]
    exact if_neg TcpState.noConfusion

/-- What becomes of the pending reset. -/
theorem smewsReceive_rst (step : smewsReceive p seg s = some s')
    : s'.rstConnection = if Refused s seg then rstFor seg else s.rstConnection := by
  by_cases port : seg.dstPort % 256 = 80
  swap
  · rw [if_neg fun refused : Refused s seg => port refused.port]
    unfold smewsReceive at step
    rw [if_neg port] at step
    cases step
    rfl
  by_cases unknown : ∀ k ∈ s.connections, ¬ isPeer seg k
  swap
  · rw [if_neg fun refused : Refused s seg => unknown refused.unknown]
    cases smewsReceive_commits step with
    | nothing _ rst | stored _ _ _ _ _ _ _ _ _ _ _ _ _ rst | freed _ _ _ _ _ _ _ _ _ _ _ _ rst => exact rst
    | added _ _ absent | refused _ absent => exact absurd absent unknown
  rw [smewsReceive_unknown port unknown] at step
  by_cases valid : seg.checksumValid
  swap
  · rw [if_neg valid] at step
    cases step
    rw [if_neg fun refused : Refused s seg => valid refused.valid]
  rw [if_pos valid] at step
  by_cases syn : seg.has tcpSyn
  swap
  · rw [if_neg syn] at step
    cases step
    rw [if_pos (Refused.mk port valid unknown fun has => absurd has syn)]
  rw [if_pos syn] at step
  unfold Server.addConnection Heap.memAlloc at step
  by_cases exhausted : s.heap.exhausted s.heap.next
  · rw [if_pos (Refused.mk port valid unknown fun _ => exhausted)]
    rw [if_pos exhausted] at step
    cases step
    rfl
  · rw [if_neg fun refused : Refused s seg => exhausted (refused.noRoom syn)]
    rw [if_neg exhausted] at step
    cases step
    rfl

end Receive

--------------------------------------------------
-- The slot
--------------------------------------------------

section Steps

variable {s s' : Server} {event : Event}

theorem slotOf_congr (rst : s'.rstConnection = s.rstConnection) (sent : resetsSent s' = resetsSent s)
    : slotOf s' = slotOf s := by
  rw [slotOf, slotOf, awaiting, awaiting, rst, sent]

theorem Permitted.not_reset {stage : Stage} {packet : Packet} (permitted : Permitted stage packet)
    : isReset packet = false := by
  obtain ⟨destination, body⟩ := packet
  cases body with
  | gpip _ _ => rfl
  | tcp port seqno ackno flags options payload =>
      rw [isReset, decide_eq_false_iff_not, not_not]
      cases stage with
      | absent => exact permitted.elim
      | handshake =>
          rw [permitted.1]
          rfl
      | opened => exact permitted.2
      | last => rcases permitted.1 with rfl | rfl <;> rfl

/-- The packets for connections are no resets. -/
theorem resetsSent_append {u : Server} {new : List (Option Addr × Packet)} (sent : s'.sent = u.sent ++ new)
    (none : ∀ entry ∈ new, isReset entry.2 = false)
    : resetsSent s' = resetsSent u := by
  have empty : (new.map Prod.snd).filter isReset = [] := by
    rw [List.filter_eq_nil_iff]
    intro packet mem
    obtain ⟨entry, own, rfl⟩ := List.mem_map.mp mem
    rw [none entry own]
    exact Bool.false_ne_true
  rw [resetsSent, resetsSent, sent, List.map_append, List.filter_append, empty, List.append_nil]

/-- A call of `smews_send` takes the reset. -/
theorem AllStaged.takes (staged : AllStaged s) (step : smewsSend p s = some s')
    : slotOf s' = Slot.step (slotOf s) .take := by
  have quiet (rst : s.rstConnection.port = 0) (sent : resetsSent s' = resetsSent s)
      : slotOf s' = Slot.step (slotOf s) .take := by
    rw [slotOf_congr (smewsSend_rst step rst) sent]
    simp [slotOf, awaiting, rst, Slot.step]
  cases smewsSend_sends step with
  | nothing rst idle same => exact quiet rst (by rw [same])
  | reset rst same =>
      subst same
      have flags : (tcpRst ||| tcpAck) &&& tcpRst ≠ 0 := by decide
      simp [slotOf, awaiting, resetsSent, sendRst, Slot.step, rst, isReset, flags]
  | gpip i before b g rst chosen ring answered =>
      obtain ⟨g', -, sent⟩ := answered.sent
      refine quiet rst (resetsSent_append (u := s) sent fun entry mem => ?_)
      rw [List.mem_singleton] at mem
      rw [mem]
      rfl
  | http i before b c rst chosen able ring serves =>
      have rotated : AllStaged (rotate i s) := fun a c mem => staged a c (mem_rotate.mp mem)
      obtain ⟨-, -, new, sent, permitted⟩ := rotated.serves ring serves
      refine quiet rst (resetsSent_append (u := s) sent fun entry mem => ?_)
      obtain ⟨a, c, -, -, allowed⟩ := permitted entry mem
      exact allowed.not_reset

/-- A step of the server is a call on the slot. -/
theorem AllStaged.slot (staged : AllStaged s) (step : Step p s event s')
    : slotOf s' = Slot.step (slotOf s) (callOf s event) := by
  have still (rst : s'.rstConnection = s.rstConnection) (quiet : ¬ event.isSend)
      : slotOf s' = slotOf s :=
    slotOf_congr rst (by rw [resetsSent, resetsSent, step_sent step quiet])
  cases event with
  | send => exact staged.takes step
  | receive seg =>
      have sent : resetsSent s' = resetsSent s := by rw [resetsSent, resetsSent, step_sent step Bool.false_ne_true]
      have rst := smewsReceive_rst step
      rw [callOf]
      by_cases refused : Refused s seg
      · rw [if_pos refused] at rst ⊢
        split <;> rename_i port <;> simp [slotOf, awaiting, rst, sent, rstFor, port, Slot.step, refusal]
      · rw [if_neg refused] at rst ⊢
        exact still rst Bool.false_ne_true
  | receiveGpIp srcAddr protocol payload =>
      refine still ?_ Bool.false_ne_true
      cases smewsReceiveGpIp_receives step with
      | unknown _ same | exhausted _ _ same | dropped _ _ _ _ _ _ _ _ same
        | accepted _ _ _ _ _ _ _ _ _ _ same => rw [same]
  | packetOut protocol address =>
      simp only [Step, next, Option.some.injEq] at step
      subst step
      refine still ?_ Bool.false_ne_true
      unfold requestPacketOutCall
      split
      · rfl
      · exact addConnection_rst s _
  | retransmit =>
      simp only [Step, next, Option.some.injEq] at step
      subst step
      exact still rfl Bool.false_ne_true
  | push handler =>
      simp only [Step, next, Option.some.injEq] at step
      subst step
      refine still ?_ Bool.false_ne_true
      unfold serverPush
      split <;> rfl

end Steps

--------------------------------------------------
-- Runs
--------------------------------------------------

/-- The reset that would answer an event. -/
def refusal? : Event → Option Packet
  | .receive seg => some (refusal seg)
  | .receiveGpIp .. | .send | .retransmit | .push _ | .packetOut .. => none

theorem callOf_letter {s : Server} {event : Event} {packet : Packet} (letter : (callOf s event).letter? = some packet)
    : refusal? event = some packet := by
  cases event with
  | receive seg =>
      rw [callOf] at letter
      split at letter
      · split at letter
        · cases letter
        · exact letter
      · cases letter
  | receiveGpIp _ _ _ | send | retransmit | push _ | packetOut _ _ => cases letter

/-- Only segments are answered, by induction on the run. -/
theorem letters_sublist {start s : Server} {history : List (Event × Slot.Call Packet)}
    (noted : Run (fun s entry s' => Step p s entry.1 s' ∧ entry.2 = callOf s entry.1) start history s)
    : ((history.map Prod.snd).filterMap Slot.Call.letter?).Sublist ((history.map Prod.fst).filterMap refusal?) := by
  induction noted with
  | nil s => exact .slnil
  | @cons s _ _ entry history first _ ih =>
      obtain ⟨event, call⟩ := entry
      obtain ⟨-, call⟩ := first
      dsimp only at call
      subst call
      rw [List.map_cons, List.map_cons]
      cases letter : (callOf s event).letter? with
      | none =>
          rw [List.filterMap_cons_none letter]
          cases answer : refusal? event with
          | none => rwa [List.filterMap_cons_none answer]
          | some packet =>
              rw [List.filterMap_cons_some answer]
              exact ih.cons packet
      | some packet =>
          rw [List.filterMap_cons_some letter, List.filterMap_cons_some (callOf_letter letter)]
          exact ih.cons_cons packet

/-- The resets that were sent are those of the refused segments behind which `smews_send` was called before another one
was refused. Each segment is answered once at most, in the order of their arrival.
-/
theorem resets_answer {start s : Server} {events : List Event} (initial : Initial start)
    (run : Run (Step p) start events s)
    : (resetsSent s).Sublist (events.filterMap refusal?)
      ∧ ∃ history : List (Event × Slot.Call Packet), history.map Prod.fst = events
        ∧ Run (fun s entry s' => Step p s entry.1 s' ∧ entry.2 = callOf s entry.1) start history s
        ∧ resetsSent s = Slot.deliveries (history.map Prod.snd) := by
  obtain ⟨history, same, noted⟩ := run.annotate callOf
  suffices answered : resetsSent s = Slot.deliveries (history.map Prod.snd) by
    refine ⟨?_, history, same, noted, answered⟩
    rw [answered, ← same]
    exact (Slot.deliveries_sublist _).trans (letters_sublist noted)
  have slot := noted.invariant_history
    (fun past s => AllStaged s ∧ (peers s.connections).Nodup
      ∧ slotOf s = (past.map Prod.snd).foldl Slot.step (slotOf start))
    (by
      rintro past s ⟨event, call⟩ s' ⟨staged, distinct, slot⟩ ⟨step, noted⟩
      have next : AllStaged s' ∧ LifeStep (0, 0) (lifeOf (0, 0) s) event (lifeOf (0, 0) s') := staged.step distinct step
      refine ⟨next.1, step_peers step distinct, ?_⟩
      rw [List.map_append, List.foldl_append, ← slot, staged.slot step, ← noted]
      rfl)
    ⟨fun a c mem => by simp [initial.connections] at mem, by simp [initial.connections, peers], rfl⟩
  have delivered := congrArg Slot.State.delivered slot.2.2
  rw [Slot.delivered_foldl] at delivered
  simpa [slotOf, awaiting, resetsSent, initial.rstPort, initial.sent] using delivered

/-- Two segments without a `SYN`, and a reset for the later one. -/
def twoRefused : List Event :=
  [
    .receive (clientSegment 1001 7 tcpAck 8192 [] [] bare_fits),
    .receive (clientSegment 1002 8 tcpAck 8192 [] [] bare_fits),
    .send
  ]

/-- Only the second one is answered. -/
theorem resets_answer_second
    : ∃ s, Run (Step (oneGenerator hello noArgs)) bootServer twoRefused s
      ∧ (resetsSent s).Sublist (twoRefused.filterMap refusal?)
      ∧ resetsSent s = [refusal (clientSegment 1002 8 tcpAck 8192 [] [] bare_fits)] := by
  have checked : (runChecked (next (oneGenerator hello noArgs)) (fun _ _ => True) twoRefused bootServer).map
      (fun s => decide (resetsSent s = [refusal (clientSegment 1002 8 tcpAck 8192 [] [] bare_fits)]))
      = some true := by
    decide +kernel
  simp only [Option.map_eq_some_iff, decide_eq_true_eq] at checked
  obtain ⟨s, run, sent⟩ := checked
  have run := (Run.of_checked run).mono And.left
  exact ⟨s, run, (resets_answer bootServer_initial run).1, sent⟩

end Smews.System
