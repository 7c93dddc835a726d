import Smews.Input.SelectedHandlers
import Smews.Input.StateMachine
import Smews.Output.Destinations
import Smews.System.FileSegments
import Smews.System.Handshake
import Smews.System.Retransmission

/-! The life of the connection of a peer, as an automaton of its own: which segments lead from one stage to the next,
and which packets are sent in each stage. The server simulates it for every peer.
-/

namespace Smews.System

open Smews.Core Input Output Runs

variable {p : Program}

--------------------------------------------------
-- The automaton
--------------------------------------------------

/-- A peer without a connection, and the states of a connection of the ring. -/
inductive Stage
  | absent
  | handshake
  | opened
  | last
deriving DecidableEq, Repr

/-- A packet that may be sent in a stage: a `SYN` and `ACK` in the handshake, data on an open connection, and nothing
but a `FIN` and acknowledgements at the end.
-/
def Permitted (stage : Stage) (packet : Packet) : Prop :=
  match packet.body with
  | .gpip _ _ => False
  | .tcp _ _ _ flags _ payload =>
      match stage with
      | .absent => False
      | .handshake => flags = tcpSyn ||| tcpAck ∧ payload = []
      | .opened => flags &&& tcpFin = 0 ∧ flags &&& tcpRst = 0
      | .last => (flags = tcpAck ||| tcpFin ∨ flags = tcpAck) ∧ payload = []

/-- A segment of a peer that the server takes for its own. -/
structure FromPeer (peer : UInt32 × UInt16) (seg : TcpSegment) : Prop where
  peer : (seg.srcAddr, seg.srcPort) = peer
  port : seg.dstPort % 256 = 80
  valid : seg.checksumValid

/-- What can be seen of a peer: its stage, and the packets that were sent on its connections. -/
structure Life where
  stage : Stage
  packets : List Packet

/-- A step of the life of a peer. -/
inductive LifeStep (peer : UInt32 × UInt16) : Life → Event → Life → Prop
  | stays (l : Life) (event : Event) : LifeStep peer l event l
  | opens {seg : TcpSegment} (packets : List Packet) (own : FromPeer peer seg) (syn : seg.has tcpSyn)
    : LifeStep peer ⟨.absent, packets⟩ (.receive seg) ⟨.handshake, packets⟩
  | settles {seg : TcpSegment} (packets : List Packet) (own : FromPeer peer seg)
    : LifeStep peer ⟨.handshake, packets⟩ (.receive seg) ⟨.opened, packets⟩
  | finishes {seg : TcpSegment} (packets : List Packet) (own : FromPeer peer seg) (fin : seg.has tcpFin)
    : LifeStep peer ⟨.opened, packets⟩ (.receive seg) ⟨.last, packets⟩
  | resets {seg : TcpSegment} (packets : List Packet) (own : FromPeer peer seg) (rst : seg.has tcpRst)
    : LifeStep peer ⟨.opened, packets⟩ (.receive seg) ⟨.absent, packets⟩
  | ends {seg : TcpSegment} (packets : List Packet) (own : FromPeer peer seg)
    : LifeStep peer ⟨.last, packets⟩ (.receive seg) ⟨.absent, packets⟩
  | emits (stage : Stage) (packets new : List Packet) (permitted : ∀ packet ∈ new, Permitted stage packet)
    : LifeStep peer ⟨stage, packets⟩ .send ⟨stage, packets ++ new⟩

--------------------------------------------------
-- The view of the server
--------------------------------------------------

def stageOf : TcpState → Stage
  | .synRcvd => .handshake
  | .established => .opened
  | .lastAck => .last
  | .listen | .closing => .absent

/-- The peer of a connection, and its state. -/
def stateOf (k : Connection) : Option ((UInt32 × UInt16) × TcpState) :=
  match k.protocol with
  | .http c => some ((c.ipAddr, c.port), c.tcpState)
  | .gpip _ => none

/-- The states of the peers of a ring. -/
def states (ring : List Connection) : List ((UInt32 × UInt16) × TcpState) := ring.filterMap stateOf

/-- The stage of a peer. -/
def ringStage (peer : UInt32 × UInt16) (ring : List Connection) : Stage :=
  ((states ring).lookup peer).elim .absent stageOf

/-- The packets of a history that went to the connections of a peer. -/
def packetsTo (peer : UInt32 × UInt16) (sent : List (Option Addr × Packet)) : List Packet :=
  (sent.filter (sentTo peer)).map Prod.snd

/-- What the server shows of a peer. -/
def lifeOf (peer : UInt32 × UInt16) (s : Server) : Life := ⟨ringStage peer s.connections, packetsTo peer s.sent⟩

--------------------------------------------------
-- The invariant of a connection
--------------------------------------------------

/-- A handler that neither finishes nor resets a connection. -/
def Continuing (handler : Option HandlerRef) : Prop := handler ≠ some .finack ∧ handler ≠ some .rst

/-- The handlers that go with the state of a connection. -/
def Staged (c : HttpConnection) : Prop :=
  match c.tcpState with
  | .synRcvd => (∀ h ∈ c.outputHandler, h = .synack) ∧ c.request.readyToSend = true ∧ c.cometSendAck = false
  | .established => Continuing c.outputHandler
  | .lastAck => ∀ h ∈ c.outputHandler, h = .finack
  | .listen | .closing => False

section Connection

variable {c c' : HttpConnection} {seg : TcpSegment} {heap : Heap} {h : HandlerRef}

/-- A handler with data belongs to an established connection. -/
theorem Staged.data (staged : Staged c) (handler : c.outputHandler = some h) (notControl : p.isControl h = false)
    : c.tcpState = .established := by
  unfold Staged at staged
  cases state : c.tcpState with
  | established => rfl
  | synRcvd =>
      rw [state] at staged
      obtain rfl := staged.1 h handler
      cases notControl
  | lastAck =>
      rw [state] at staged
      obtain rfl := staged h handler
      cases notControl
  | listen | closing =>
      rw [state] at staged
      exact staged.elim

/-- Only the handler and the state matter to an established connection. -/
theorem Staged.of_established (state : c.tcpState = .established) (continuing : Continuing c.outputHandler)
    : Staged c := by
  unfold Staged
  rw [state]
  exact continuing

theorem Staged.continuing (staged : Staged c) (state : c.tcpState = .established) : Continuing c.outputHandler := by
  unfold Staged at staged
  rwa [state] at staged

/-- The parser finishes no connection. -/
theorem Processed.continuing (processed : Processed p seg c heap c')
    (before : Continuing (received p seg c).outputHandler)
    : Continuing c'.outputHandler := by
  have queued (d : HttpConnection) (continuing : Continuing d.outputHandler)
      : Continuing (queueAck seg d).outputHandler := by
    unfold queueAck
    split
    · exact ⟨nofun, nofun⟩
    · exact continuing
  cases processed with
  | plain noData result =>
      rw [result]
      exact queued _ before
  | parsed o data parse result =>
      rw [result]
      refine queued _ ?_
      unfold afterParsing
      dsimp only
      cases selected : o.selected with
      | some h =>
          have build (h : HandlerRef) (notControl : p.isControl h = false) : Continuing (some h) := by
            constructor <;> rintro ⟨rfl⟩ <;> cases notControl
          exact parseSegment_selected (p := p) (Q := Continuing) build ⟨nofun, nofun⟩ before parse selected
      | none =>
          dsimp only
          split
          · exact ⟨nofun, nofun⟩
          · exact before

/-- The state of a connection before the sequence number of a segment is handled. -/
theorem Cleared.frame {d : HttpConnection} (cleared : Cleared p (acknowledge c seg.ackno).1 d)
    : d.tcpState = c.tcpState ∧ ∀ h ∈ d.outputHandler, c.outputHandler = some h := by
  obtain ⟨state, handler, -⟩ := acknowledge_tcpState c seg.ackno
  cases cleared with
  | kept same =>
      rw [same, state, handler]
      exact ⟨rfl, fun h own => own⟩
  | cleared done same =>
      rw [same]
      exact ⟨state, nofun⟩

/-- The stages that a segment leads through. -/
inductive Leads (seg : TcpSegment) : Stage → Stage → Prop
  | stays (stage : Stage) : Leads seg stage stage
  | settles : Leads seg .handshake .opened
  | finishes (fin : seg.has tcpFin) : Leads seg .opened .last
  | resets (rst : seg.has tcpRst) : Leads seg .opened .absent
  | ends : Leads seg .last .absent

theorem Staged.leads (staged : Staged c) (processed : Processed p seg c heap c')
    : Leads seg (stageOf c.tcpState) (stageOf c'.tcpState) := by
  obtain ⟨⟨d, cleared, transition⟩, -, -⟩ := received_headers (p := p) seg c
  rw [processed.frame.tcpState, ← (Cleared.frame cleared).1]
  have before := (Cleared.frame cleared).1
  cases transition with
  | stays state _ =>
      rw [state]
      exact .stays _
  | opens listening =>
      unfold Staged at staged
      rw [← before, listening] at staged
      exact staged.elim
  | repeats waiting _ state =>
      rw [waiting, state]
      exact .stays _
  | settles waiting _ state =>
      rw [waiting, state]
      exact .settles
  | finishes established fin state =>
      rw [established, state]
      exact .finishes fin
  | resets established rst state =>
      rw [established, state]
      exact .resets rst
  | ends last state =>
      rw [last, state]
      exact .ends

/-- A segment keeps the handlers of a connection that stays. -/
theorem Staged.processed (staged : Staged c) (processed : Processed p seg c heap c') (open_ : c'.tcpState ≠ .listen)
    : Staged c' := by
  obtain ⟨⟨d, cleared, transition⟩, -, -⟩ := received_headers (p := p) seg c
  have frame := received_frame (p := p) seg c
  have state' := processed.frame.tcpState
  obtain ⟨before, handlers⟩ := Cleared.frame cleared
  rw [state'] at open_
  -- only an established connection is parsed
  have unparsed (other : (received p seg c).tcpState ≠ .established) : c' = received p seg c :=
    processed.unestablished other
  unfold Staged at staged
  rw [← before] at staged
  cases transition with
  | opens listening =>
      rw [listening] at staged
      exact staged.elim
  | resets _ _ state | ends _ state => exact absurd state open_
  | repeats waiting _ state handler =>
      rw [waiting] at staged
      rw [unparsed (by rw [state]; exact nofun), Staged, state]
      refine ⟨fun h own => ?_, by rw [frame.request]; exact staged.2.1, by rw [frame.cometSendAck]; exact staged.2.2⟩
      rw [handler] at own
      exact (Option.some.inj own).symm
  | settles waiting _ state handler =>
      rw [waiting] at staged
      refine .of_established (state'.trans state) (Processed.continuing processed ?_)
      have free (h : HandlerRef) (other : h ≠ .synack) : (received p seg c).outputHandler ≠ some h := fun own =>
        other (staged.1 h (handlers h (handler ▸ own)))
      exact ⟨free .finack nofun, free .rst nofun⟩
  | finishes _ _ state handler =>
      rw [unparsed (by rw [state]; exact nofun), Staged, state]
      intro h own
      rw [handler] at own
      exact (Option.some.inj own).symm
  | stays state handler =>
      cases same : d.tcpState with
      | listen | closing =>
          rw [same] at staged
          exact staged.elim
      | synRcvd =>
          rw [same] at staged state
          rw [unparsed (by rw [state]; exact nofun), Staged, state]
          exact ⟨fun h own => staged.1 h (handlers h (handler ▸ own)), by rw [frame.request]; exact staged.2.1,
            by rw [frame.cometSendAck]; exact staged.2.2⟩
      | established =>
          rw [same] at staged state
          refine .of_established (state'.trans state) (Processed.continuing processed ?_)
          have free (h : HandlerRef) (other : c.outputHandler ≠ some h) : (received p seg c).outputHandler ≠ some h :=
            fun own => other (handlers h (handler ▸ own))
          exact ⟨free .finack staged.1, free .rst staged.2⟩
      | lastAck =>
          rw [same] at staged state
          rw [unparsed (by rw [state]; exact nofun), Staged, state]
          exact fun h own => staged h (handlers h (handler ▸ own))

/-- A new connection. -/
theorem Staged.added {s : Server} (processed : Processed p seg (listenConnection p s seg) heap c')
    (syn : c'.tcpState = .synRcvd)
    : Staged c' ∧ seg.has tcpSyn := by
  have frame := received_frame (p := p) seg (listenConnection p s seg)
  have state := processed.frame.tcpState.symm.trans syn
  obtain rfl := processed.unestablished (by rw [state]; exact nofun)
  refine ⟨?_, ?_⟩
  · rw [Staged, state]
    refine ⟨fun h own => ?_, by rw [frame.request]; rfl, frame.cometSendAck⟩
    rw [received_listen state] at own
    exact (Option.some.inj own).symm
  · obtain ⟨⟨d, cleared, transition⟩, -, -⟩ := received_headers (p := p) seg (listenConnection p s seg)
    have before := (Cleared.frame cleared).1
    cases transition with
    | opens _ syn => exact syn
    | stays state' =>
        rw [state', before] at state
        cases state
    | repeats waiting | settles waiting | finishes waiting | resets waiting | ends waiting =>
        rw [before] at waiting
        cases waiting

end Connection

--------------------------------------------------
-- The packets of a stage
--------------------------------------------------

section Packets

variable {c c' : HttpConnection} {h : HandlerRef} {a : Addr} {s s' u : Server} {peer : UInt32 × UInt16}

/-- A packet with data, or of an established connection. -/
theorem permitted_opened (payload : List UInt8) (state : c.tcpState = .established) (free : Continuing (some h))
    : Permitted (stageOf c.tcpState) (packetFor p c h payload) := by
  have flags : getFlags p h &&& tcpFin = 0 ∧ getFlags p h &&& tcpRst = 0 := by
    unfold getFlags
    cases h with
    | finack => exact absurd rfl free.1
    | rst => exact absurd rfl free.2
    | synack =>
        show (tcpSyn ||| tcpAck) &&& tcpFin = 0 ∧ (tcpSyn ||| tcpAck) &&& tcpRst = 0
        decide
    | ack =>
        show tcpAck &&& tcpFin = 0 ∧ tcpAck &&& tcpRst = 0
        decide
    | http404 | http505 =>
        show (tcpAck ||| tcpPsh) &&& tcpFin = 0 ∧ (tcpAck ||| tcpPsh) &&& tcpRst = 0
        decide
    | resource n =>
        have notControl := p.resource_ne_control n
        show _ ∧ _
        split
        · rename_i length flags data
          exact absurd data (notControl length flags)
        · exact ⟨by decide, by decide⟩
  rw [state]
  exact flags

/-- A packet without data. -/
theorem Staged.permitted (staged : Staged c) (handler : c.outputHandler = some h)
    : Permitted (stageOf c.tcpState) (packetFor p c h []) := by
  cases state : c.tcpState with
  | listen | closing =>
      rw [Staged, state] at staged
      exact staged.elim
  | established =>
      rw [← state]
      exact permitted_opened [] state (handler ▸ staged.continuing state)
  | synRcvd =>
      rw [Staged, state] at staged
      obtain rfl := staged.1 h handler
      exact ⟨rfl, rfl⟩
  | lastAck =>
      rw [Staged, state] at staged
      obtain rfl := staged h handler
      exact ⟨.inl rfl, rfl⟩

/-- A plain acknowledgement in the place of a packet. -/
theorem Staged.permitted_ack (staged : Staged c) (instead : ¬ c.request.readyToSend ∨ c.cometSendAck)
    : Permitted (stageOf c.tcpState) (packetFor p { c with outputHandler := some .ack } .ack []) := by
  cases state : c.tcpState with
  | listen | closing =>
      rw [Staged, state] at staged
      exact staged.elim
  | established =>
      show tcpAck &&& tcpFin = 0 ∧ tcpAck &&& tcpRst = 0
      decide
  | synRcvd =>
      rw [Staged, state] at staged
      obtain ⟨-, ready, noAck⟩ := staged
      simp [ready, noAck] at instead
  | lastAck => exact ⟨.inr rfl, rfl⟩

/-- What a call of `smews_send` leaves of a connection that it changes. -/
theorem Staged.congr (staged : Staged c) (state : c'.tcpState = c.tcpState)
    (handler : c'.outputHandler = c.outputHandler ∨ c'.outputHandler = none) (request : c.tcpState = .synRcvd →
      c'.request.readyToSend = c.request.readyToSend ∧ c'.cometSendAck = c.cometSendAck)
    : Staged c' := by
  unfold Staged at *
  rw [state]
  cases same : c.tcpState with
  | listen | closing =>
      rw [same] at staged
      exact staged
  | established =>
      rw [same] at staged
      rcases handler with handler | handler <;> dsimp only <;> rw [handler]
      · exact staged
      · exact ⟨nofun, nofun⟩
  | lastAck =>
      rw [same] at staged
      rcases handler with handler | handler <;> dsimp only <;> rw [handler]
      · exact staged
      · exact nofun
  | synRcvd =>
      rw [same] at staged
      obtain ⟨ready, noAck⟩ := request same
      dsimp only
      rw [ready, noAck]
      rcases handler with handler | handler <;> rw [handler]
      · exact staged
      · exact ⟨nofun, staged.2⟩

/-- The connections of a ring have the handlers of their states. -/
def AllStaged (s : Server) : Prop := ∀ a c, ⟨a, .http c⟩ ∈ s.connections → Staged c

/-- Each packet goes to a connection of a ring, and is permitted to it. -/
def AllPermitted (ring : List Connection) (new : List (Option Addr × Packet)) : Prop :=
  ∀ entry ∈ new, ∃ a c, ⟨a, .http c⟩ ∈ ring ∧ sentTo (c.ipAddr, c.port) entry
    ∧ Permitted (stageOf c.tcpState) entry.2

theorem AllPermitted.single (mem : ⟨a, .http c⟩ ∈ s.connections) (payload : List UInt8)
    (permitted : Permitted (stageOf c.tcpState) (packetFor p c' h payload))
    (same : (c'.ipAddr, c'.port) = (c.ipAddr, c.port))
    : AllPermitted s.connections [(some a, packetFor p c' h payload)] := by
  intro entry mem'
  rw [List.mem_singleton] at mem'
  subst mem'
  exact ⟨a, c, mem, same ▸ packetFor_sentTo a c' payload, permitted⟩

/-- A generator changes the state of no connection, by induction on the ring. -/
theorem states_served {ring ring' : List Connection} (served : List.Forall₂ (ServedBy h) ring ring')
    : states ring' = states ring := by
  induction served with
  | nil => rfl
  | @cons k k' ring ring' first _ ih =>
      have same : stateOf k' = stateOf k := by
        rcases first with rfl | ⟨c, c', isHttp, rfl, pair⟩
        · rfl
        · simp only [stateOf, isHttp, pair.ipAddr, pair.port, pair.tcpState]
      rw [states, states, List.filterMap_cons, List.filterMap_cons, same, ← states, ← states, ih]

/-- The connection that `smews_send` serves. -/
theorem AllStaged.serves {before : List Connection} (staged : AllStaged u)
    (ring : u.connections = before ++ [⟨a, .http c⟩]) (serves : Serves p u before a c s')
    : AllStaged s' ∧ states s'.connections = states u.connections
      ∧ ∃ new, s'.sent = u.sent ++ new ∧ AllPermitted u.connections new := by
  have last : ⟨a, .http c⟩ ∈ u.connections := by simp [ring]
  have own := staged a c last
  have closing : c.tcpState ≠ .closing := by
    intro closing
    rw [Staged, closing] at own
    exact own
  have served {c' : HttpConnection} (ring' : s'.connections = before ++ [⟨a, .http c'⟩])
      (peer : (c'.ipAddr, c'.port) = (c.ipAddr, c.port)) (state : c'.tcpState = c.tcpState) (staged' : Staged c')
      : AllStaged s' ∧ states s'.connections = states u.connections := by
    refine ⟨fun b e mem => ?_, ?_⟩
    · rw [ring', List.mem_append, List.mem_singleton] at mem
      rcases mem with mem | same
      · exact staged b e (ring ▸ List.mem_append_left _ mem)
      · cases same
        exact staged'
    · rw [ring', ring, states, states, List.filterMap_append, List.filterMap_append]
      simp [stateOf, Prod.mk.inj peer, state]
  cases serves with
  | ack instead sent ring' =>
      have ring' := (ring'.resolve_left fun freed => closing freed.1).2
      rw [advance_ack] at ring'
      obtain ⟨ipAddr, port, state⟩ := afterControl_frame c.outputHandler { c with
        outputHandler := some .ack
        transmissionTime := u.lastTransmissionTime }
      have handler : (afterControl c.outputHandler { c with
          outputHandler := some .ack
          transmissionTime := u.lastTransmissionTime }).outputHandler = c.outputHandler := by
        unfold afterControl
        cases c.outputHandler with
        | none => rfl
        | some h =>
            dsimp only
            split <;> rfl
      have waits (waiting : c.tcpState = .synRcvd) : False := by
        rw [Staged, waiting] at own
        obtain ⟨-, ready, noAck⟩ := own
        simp [ready, noAck] at instead
      obtain ⟨staged', same⟩ := served ring' (Prod.ext ipAddr port) state
        (own.congr state (.inl handler) fun waiting => (waits waiting).elim)
      exact ⟨staged', same, _, sent, .single last [] (own.permitted_ack instead) rfl⟩
  | control h ready noAck handler isControl sent ring' =>
      have ring' := (ring'.resolve_left fun freed => closing freed.1).2
      obtain ⟨ipAddr, port, state, request, -, noAck'⟩ := advance_frame (p := p) (t := u) c h 0
      obtain ⟨staged', same⟩ := served ring' (Prod.ext ipAddr port) state
        (own.congr state (.inr rfl) fun _ => ⟨congrArg Request.readyToSend request, noAck'⟩)
      exact ⟨staged', same, _, sent, .single last [] (own.permitted handler) rfl⟩
  | file h file payload ready noAck handler isFile content sent ring' =>
      have data : p.isControl h = false := by simp [Program.isControl, isFile]
      have state := own.data handler data
      obtain ⟨ipAddr, port, state', request, handler', noAck'⟩ := advance_frame (p := p) (t := u) c h payload.length
      obtain ⟨staged', same⟩ := served ring' (Prod.ext ipAddr port) state'
        (own.congr state' (.inl handler') fun _ => ⟨congrArg Request.readyToSend request, noAck'⟩)
      have permitted := permitted_opened (p := p) payload state (handler ▸ own.continuing state)
      exact ⟨staged', same, _, sent, .single last payload permitted rfl⟩
  | generator h resource ready noAck handler isGenerator call served' =>
      have at_last : u.connections[before.length]? = some ⟨a, .http c⟩ := by simp [ring]
      have data : p.isControl h = false := by simp [Program.isControl, isGenerator]
      obtain ⟨new, sent, addressed⟩ := sendGenerator_destined call isGenerator at_last handler
      obtain ⟨new', sent', dataOf, -⟩ := served'.sent
      obtain rfl := List.append_cancel_left (sent.symm.trans sent')
      refine ⟨fun b e mem => ?_, states_served served'.ring, new, sent, fun entry mem => ?_⟩
      · obtain ⟨e', mem', same⟩ := mem_ringServed served' mem
        rcases same with rfl | pair
        · exact staged b e mem'
        · have established := (staged b e' mem').data pair.handler data
          refine (staged b e' mem').congr pair.tcpState (.inl pair.outputHandler) fun waiting => ?_
          rw [established] at waiting
          cases waiting
      · obtain ⟨b, e, mem', handler', -, reaches⟩ := addressed entry mem
        obtain ⟨b', e', payload, rfl, -⟩ := dataOf entry mem
        have established := (staged b e mem').data handler' data
        refine ⟨b, e, mem', reaches, ?_⟩
        rw [established]
        have continuing : Continuing (some h) := handler' ▸ (staged b e mem').continuing established
        exact (permitted_opened (c := { e' with tcpState := .established }) payload rfl continuing :)

end Packets

--------------------------------------------------
-- The stage of a peer
--------------------------------------------------

section Stages

variable {ring ring' : List Connection} {peer : UInt32 × UInt16} {state : TcpState} {s : Server} {i : Nat} {a : Addr}
  {c : HttpConnection}

/-- The value of a key that occurs once, by induction on the list. -/
theorem lookup_of_mem {α β : Type} [BEq α] [LawfulBEq α] {l : List (α × β)} {key : α} {value : β}
    (distinct : (l.map Prod.fst).Nodup) (mem : (key, value) ∈ l)
    : l.lookup key = some value := by
  induction l with
  | nil => exact absurd mem List.not_mem_nil
  | cons entry l ih =>
      obtain ⟨key', value'⟩ := entry
      rw [List.map_cons, List.nodup_cons] at distinct
      rcases List.mem_cons.mp mem with same | later
      · cases same
        exact List.lookup_cons_self
      · have other : key ≠ key' := by
          rintro rfl
          exact distinct.1 (List.mem_map.mpr ⟨_, later, rfl⟩)
        rw [List.lookup_cons, beq_false_of_ne other]
        exact ih distinct.2 later

theorem peers_eq_states (ring : List Connection) : peers ring = (states ring).map Prod.fst := by
  rw [peers, states, List.map_filterMap]
  congr 1
  funext k
  obtain ⟨a, protocol⟩ := k
  cases protocol <;> rfl

theorem ringStage_of_mem (distinct : (peers ring).Nodup) (mem : (peer, state) ∈ states ring)
    : ringStage peer ring = stageOf state := by
  rw [peers_eq_states] at distinct
  rw [ringStage, lookup_of_mem distinct mem]
  rfl

theorem ringStage_absent (absent : ∀ state, (peer, state) ∉ states ring) : ringStage peer ring = .absent := by
  have none : (states ring).lookup peer = none := by
    rw [List.lookup_eq_none_iff]
    rintro ⟨peer', state⟩ mem
    simp only [bne_iff_ne]
    rintro rfl
    exact absent state mem
  rw [ringStage, none]
  rfl

theorem ringStage_congr (distinct : (peers ring).Nodup) (distinct' : (peers ring').Nodup)
    (same : ∀ state, (peer, state) ∈ states ring' ↔ (peer, state) ∈ states ring)
    : ringStage peer ring' = ringStage peer ring := by
  by_cases known : ∃ state, (peer, state) ∈ states ring
  · obtain ⟨state, mem⟩ := known
    rw [ringStage_of_mem distinct mem, ringStage_of_mem distinct' ((same state).mpr mem)]
  · rw [ringStage_absent fun state mem => known ⟨state, mem⟩,
      ringStage_absent fun state mem => known ⟨state, (same state).mp mem⟩]

theorem mem_states (mem : ⟨a, .http c⟩ ∈ ring) : ((c.ipAddr, c.port), c.tcpState) ∈ states ring :=
  List.mem_filterMap.mpr ⟨_, mem, rfl⟩

/-- The states around the connection at a position. -/
theorem states_at (at_i : s.connections[i]? = some ⟨a, .http c⟩)
    : states s.connections = states (s.connections.take i)
      ++ ((c.ipAddr, c.port), c.tcpState) :: states (s.connections.drop (i + 1)) := by
  obtain ⟨lt, eq⟩ := List.getElem?_eq_some_iff.mp at_i
  have split := List.take_append_drop i s.connections
  rw [List.drop_eq_getElem_cons lt, eq] at split
  conv_lhs => rw [← split]
  rw [states, List.filterMap_append, List.filterMap_cons]
  rfl

theorem states_setHttp (at_i : s.connections[i]? = some ⟨a, .http c⟩) (c' : HttpConnection)
    : states (s.setHttp i c').connections = states (s.connections.take i)
      ++ ((c'.ipAddr, c'.port), c'.tcpState) :: states (s.connections.drop (i + 1)) := by
  obtain ⟨lt, eq⟩ := List.getElem?_eq_some_iff.mp at_i
  rw [Server.setHttp, List.modify_eq_take_cons_drop lt, states, List.filterMap_append, List.filterMap_cons]
  rfl

end Stages

--------------------------------------------------
-- Steps
--------------------------------------------------

section Steps

variable {s s' : Server} {peer : UInt32 × UInt16} {event : Event}

/-- A segment that changes the connection of its sender. -/
theorem Leads.lifeStep {seg : TcpSegment} {stage stage' : Stage} (leads : Leads seg stage stage')
    (own : FromPeer peer seg) (packets : List Packet)
    : LifeStep peer ⟨stage, packets⟩ (.receive seg) ⟨stage', packets⟩ := by
  cases leads with
  | stays => exact .stays _ _
  | settles => exact .settles packets own
  | finishes fin => exact .finishes packets own fin
  | resets rst => exact .resets packets own rst
  | ends => exact .ends packets own

/-- A step that changes neither the states nor the packets. -/
theorem lifeStep_still (states : ringStage peer s'.connections = ringStage peer s.connections) (sent : s'.sent = s.sent)
    : LifeStep peer (lifeOf peer s) event (lifeOf peer s') := by
  rw [lifeOf, lifeOf, states, sent]
  exact .stays _ _

theorem AllStaged.receive {seg : TcpSegment} (staged : AllStaged s) (distinct : (peers s.connections).Nodup)
    (step : smewsReceive p seg s = some s')
    : AllStaged s' ∧ LifeStep peer (lifeOf peer s) (.receive seg) (lifeOf peer s') := by
  have event : Step p s (.receive seg) s' := step
  have sent := step_sent event Bool.false_ne_true
  have distinct' := step_peers event distinct
  cases smewsReceive_commits step with
  | nothing ring | refused _ _ _ _ _ ring =>
      refine ⟨fun a c mem => staged a c (ring ▸ mem), lifeStep_still ?_ sent⟩
      rw [ring]
  | stored i a c c' service found at_i own port valid processed open_ ring =>
      have member := List.mem_of_getElem? at_i
      obtain ⟨ipAddr, port'⟩ := Processed.peer processed
      have before := states_at at_i
      have after := states_setHttp at_i { c' with generatorService := service }
      rw [← ring] at after
      dsimp only at after
      refine ⟨fun b d mem => ?_, ?_⟩
      · rw [ring] at mem
        rcases mem_setHttp at_i mem with old | ⟨-, rfl⟩
        · exact staged b d old
        · have stays := (staged a c member).processed processed open_
          exact stays.congr rfl (.inl rfl) fun _ => ⟨rfl, rfl⟩
      by_cases sender : (c.ipAddr, c.port) = peer
      · have from_ : FromPeer peer seg :=
          ⟨(Option.some.inj ((isPeer_iff.mp own).symm.trans rfl)).trans sender, port, valid⟩
        have mem : (peer, c.tcpState) ∈ states s.connections := sender ▸ mem_states member
        have mem' : (peer, c'.tcpState) ∈ states s'.connections := by
          rw [after, ipAddr, port', sender]
          exact List.mem_append_right _ List.mem_cons_self
        rw [lifeOf, lifeOf, sent, ringStage_of_mem distinct mem, ringStage_of_mem distinct' mem']
        exact ((staged a c member).leads processed).lifeStep from_ _
      · refine lifeStep_still (ringStage_congr distinct distinct' fun state => ?_) sent
        rw [before, after, ipAddr, port']
        simp [Ne.symm sender]
  | freed i a c c' found at_i own port valid processed closed ring =>
      have member := List.mem_of_getElem? at_i
      have before := states_at at_i
      have after : states s'.connections = states (s.connections.drop (i + 1)) ++ states (s.connections.take i) := by
        rw [ring, states, List.filterMap_append]
        rfl
      refine ⟨fun b d mem => ?_, ?_⟩
      · rw [ring, List.mem_append] at mem
        exact staged b d (mem.elim List.mem_of_mem_drop List.mem_of_mem_take)
      by_cases sender : (c.ipAddr, c.port) = peer
      · have from_ : FromPeer peer seg :=
          ⟨(Option.some.inj ((isPeer_iff.mp own).symm.trans rfl)).trans sender, port, valid⟩
        have mem : (peer, c.tcpState) ∈ states s.connections := sender ▸ mem_states member
        have gone (state : TcpState) : (peer, state) ∉ states s'.connections := by
          rw [peers_eq_states, before, List.map_append, List.map_cons, sender] at distinct
          have alone := List.nodup_middle.mp distinct
          rw [List.nodup_cons, List.mem_append, List.mem_map, List.mem_map] at alone
          intro left
          rw [after, List.mem_append] at left
          rcases left with behind | ahead
          · exact alone.1 (.inr ⟨_, behind, rfl⟩)
          · exact alone.1 (.inl ⟨_, ahead, rfl⟩)
        have leads := (staged a c member).leads processed
        rw [closed] at leads
        rw [lifeOf, lifeOf, sent, ringStage_of_mem distinct mem, ringStage_absent gone]
        exact leads.lifeStep from_ _
      · refine lifeStep_still (ringStage_congr distinct distinct' fun state => ?_) sent
        rw [before, after, List.mem_append, List.mem_append, List.mem_cons]
        simp [Ne.symm sender, or_comm]
  | added a c' absent port valid processed syn ring =>
      obtain ⟨new, flag⟩ := Staged.added processed syn
      obtain ⟨ipAddr, port'⟩ := Processed.peer processed
      have sender : (c'.ipAddr, c'.port) = (seg.srcAddr, seg.srcPort) := by
        rw [ipAddr, port']
        rfl
      have after : states s'.connections = states s.connections ++ [((seg.srcAddr, seg.srcPort), c'.tcpState)] := by
        rw [ring, states, List.filterMap_append, ← sender]
        rfl
      refine ⟨fun b d mem => ?_, ?_⟩
      · rw [ring, List.mem_append, List.mem_singleton] at mem
        rcases mem with old | own
        · exact staged b d old
        · cases own
          exact new
      by_cases own : (seg.srcAddr, seg.srcPort) = peer
      · have unknown (state : TcpState) : (peer, state) ∉ states s.connections := by
          intro mem
          obtain ⟨k, mem, eq⟩ := List.mem_filterMap.mp mem
          refine absent k mem (isPeer_iff.mpr ?_)
          rw [own]
          obtain ⟨b, protocol⟩ := k
          cases protocol with
          | gpip g => cases eq
          | http d =>
              cases eq
              rfl
        have mem' : (peer, c'.tcpState) ∈ states s'.connections := by
          rw [after, own]
          exact List.mem_append_right _ (List.mem_singleton_self _)
        rw [lifeOf, lifeOf, sent, ringStage_absent unknown, ringStage_of_mem distinct' mem', syn]
        exact .opens _ ⟨own, port, valid⟩ flag
      · refine lifeStep_still (ringStage_congr distinct distinct' fun state => ?_) sent
        rw [after]
        simp [Ne.symm own]

/-- A packet that goes to no connection of a peer. -/
theorem lifeStep_silent {entry : Option Addr × Packet} (sent : s'.sent = s.sent ++ [entry])
    (silent : sentTo peer entry = false) (states : ringStage peer s'.connections = ringStage peer s.connections)
    : LifeStep peer (lifeOf peer s) event (lifeOf peer s') := by
  have same : packetsTo peer s'.sent = packetsTo peer s.sent := by
    simp [packetsTo, sent, silent]
  rw [lifeOf, lifeOf, states, same]
  exact .stays _ _

/-- Packets that are permitted to the connections of a ring. -/
theorem AllPermitted.lifeStep {new : List (Option Addr × Packet)} (permitted : AllPermitted s.connections new)
    (distinct : (peers s.connections).Nodup) (sent : s'.sent = s.sent ++ new)
    (states : ringStage peer s'.connections = ringStage peer s.connections)
    : LifeStep peer (lifeOf peer s) .send (lifeOf peer s') := by
  have more : packetsTo peer s'.sent = packetsTo peer s.sent ++ packetsTo peer new := by
    rw [packetsTo, packetsTo, packetsTo, sent, List.filter_append, List.map_append]
  rw [lifeOf, lifeOf, states, more]
  refine .emits _ _ _ fun packet mem => ?_
  obtain ⟨entry, filtered, rfl⟩ := List.mem_map.mp mem
  obtain ⟨emitted, reaches⟩ := List.mem_filter.mp filtered
  obtain ⟨a, c, member, reaches', allowed⟩ := permitted entry emitted
  obtain rfl := sentTo_unique reaches' reaches
  rw [ringStage_of_mem distinct (mem_states member)]
  exact allowed

theorem AllStaged.send (staged : AllStaged s) (distinct : (peers s.connections).Nodup)
    (step : smewsSend p s = some s')
    : AllStaged s' ∧ LifeStep peer (lifeOf peer s) .send (lifeOf peer s') := by
  have event : Step p s .send s' := step
  have distinct' := step_peers event distinct
  cases smewsSend_sends step with
  | nothing _ _ same =>
      rw [same]
      exact ⟨staged, .stays _ _⟩
  | reset rst same =>
      subst same
      exact ⟨staged, lifeStep_silent rfl rfl rfl⟩
  | gpip i before b g rst chosen ring answered =>
      have same : (states s'.connections).Perm (states s.connections) := by
        refine List.Perm.trans ?_ ((rotate_perm i s).filterMap stateOf)
        rw [answered.ring, ring, List.filterMap_append]
        exact List.Perm.of_eq (List.append_nil _).symm
      refine ⟨fun a c mem => ?_, ?_⟩
      · rw [answered.ring] at mem
        exact staged a c (mem_rotate.mp (ring ▸ List.mem_append_left _ mem))
      · obtain ⟨g', -, sent⟩ := answered.sent
        exact lifeStep_silent sent rfl (ringStage_congr distinct distinct' fun state => same.mem_iff)
  | http i before b c rst chosen able ring serves =>
      have rotated : AllStaged (rotate i s) := fun a c mem => staged a c (mem_rotate.mp mem)
      obtain ⟨staged', same, new, sent, permitted⟩ := rotated.serves ring serves
      have perm : (states (rotate i s).connections).Perm (states s.connections) :=
        (rotate_perm i s).filterMap stateOf
      refine ⟨staged', AllPermitted.lifeStep (fun entry mem => ?_) distinct sent
        (ringStage_congr distinct distinct' fun state => ?_)⟩
      · obtain ⟨a, c, member, allowed⟩ := permitted entry mem
        exact ⟨a, c, mem_rotate.mp member, allowed⟩
      · rw [same]
        exact perm.mem_iff

/-- A change of all the connections that keeps their states and handlers. -/
theorem AllStaged.mapHttp {f : HttpConnection → HttpConnection} {u : Server} (staged : AllStaged u)
    (frame : ∀ c, SegmentFrame c (f c)) (stays : ∀ c, Staged c → Staged (f c))
    : AllStaged (System.mapHttp f u) ∧ states (System.mapHttp f u).connections = states u.connections := by
  refine ⟨fun a c mem => ?_, ?_⟩
  · obtain ⟨d, old, rfl⟩ := mem_mapHttp.mp mem
    exact stays d (staged a d old)
  · rw [System.mapHttp, states, states, List.filterMap_map]
    congr 1
    funext k
    obtain ⟨a, protocol⟩ := k
    cases protocol with
    | gpip g => rfl
    | http c => simp [stateOf, (frame c).ipAddr, (frame c).port, (frame c).tcpState]

/-- A step of the server is a step in the life of every peer. -/
theorem AllStaged.step (staged : AllStaged s) (distinct : (peers s.connections).Nodup) (step : Step p s event s')
    : AllStaged s' ∧ LifeStep peer (lifeOf peer s) event (lifeOf peer s') := by
  have still (staged' : AllStaged s') (same : states s'.connections = states s.connections) (quiet : ¬ event.isSend)
      : AllStaged s' ∧ LifeStep peer (lifeOf peer s) event (lifeOf peer s') := by
    refine ⟨staged', lifeStep_still ?_ (step_sent step quiet)⟩
    rw [ringStage, ringStage, same]
  cases event with
  | receive seg => exact staged.receive distinct step
  | send => exact staged.send distinct step
  | receiveGpIp srcAddr protocol payload =>
      refine still (fun a c mem => staged a c (smewsReceiveGpIp_http step mem)) ?_ Bool.false_ne_true
      cases smewsReceiveGpIp_receives step with
      | unknown _ same | exhausted _ _ same | dropped _ _ _ _ _ _ _ _ same => rw [same]
      | accepted h g b heap code _ _ _ _ _ same =>
          rw [same]
          simp [states, stateOf]
  | packetOut protocol address =>
      simp only [Step, next, Option.some.injEq] at step
      subst step
      refine still (fun a c mem => staged a c (requestPacketOutCall_http mem)) ?_ Bool.false_ne_true
      unfold requestPacketOutCall
      split
      · rfl
      · rename_i handler _
        rcases addConnection_cases (p := p) s (.gpip {
            ipAddr := address
            outputHandler := handler
            payloadSize := 0
            protocol
            wantToSend := 1
          }) with ⟨-, kept⟩ | ⟨b, -, ring⟩
        · rw [kept]
        · rw [ring, states, states, List.filterMap_append]
          exact List.append_nil _
  | retransmit =>
      simp only [Step, next, Option.some.injEq] at step
      subst step
      have frame (c : HttpConnection) : SegmentFrame c (rollBack (s.lastTransmissionTime + 1) c) := by
        unfold rollBack
        split <;> exact ⟨rfl, rfl, rfl, rfl, rfl, rfl⟩
      have stays (c : HttpConnection) (staged : Staged c) : Staged (rollBack (s.lastTransmissionTime + 1) c) := by
        unfold rollBack
        split
        · exact staged.congr rfl (.inl rfl) fun _ => ⟨rfl, rfl⟩
        · exact staged
      obtain ⟨staged', same⟩ := AllStaged.mapHttp (u := { s with lastTransmissionTime := s.lastTransmissionTime + 1 })
        staged frame stays
      exact still staged' same Bool.false_ne_true
  | push handler =>
      simp only [Step, next, Option.some.injEq] at step
      subst step
      by_cases comet : (p.handler handler).handlerComet
      swap
      · rw [serverPush, if_neg comet] at still ⊢
        exact still staged rfl Bool.false_ne_true
      rw [serverPush, if_pos comet] at still ⊢
      have frame (c : HttpConnection) : SegmentFrame c (if c.outputHandler = some handler then
          { c with cometSendAck := false, finalOutseqno := c.nextOutseqno - 1 } else c) := by
        split <;> exact ⟨rfl, rfl, rfl, rfl, rfl, rfl⟩
      have stays (c : HttpConnection) (staged : Staged c) : Staged (if c.outputHandler = some handler then
          { c with cometSendAck := false, finalOutseqno := c.nextOutseqno - 1 } else c) := by
        split
        · rename_i listens
          refine staged.congr rfl (.inl rfl) fun waiting => ?_
          rw [Staged, waiting] at staged
          obtain rfl := staged.1 handler listens
          cases comet
        · exact staged
      obtain ⟨staged', same⟩ := AllStaged.mapHttp staged frame stays
      exact still staged' same Bool.false_ne_true

end Steps

--------------------------------------------------
-- Runs
--------------------------------------------------

/-- A request and its response, and the end of the connection after it. -/
def finishedRequest : List Event :=
  requestOf 1000 ++ [
    .send,
    .receive (clientSegment 1020 0x42b7a4db (tcpAck ||| tcpFin) 8192 [] [] bare_fits),
    .send,
    .receive (clientSegment 1021 0x42b7a4dc tcpAck 8192 [] [] bare_fits)
  ]

end Smews.System
