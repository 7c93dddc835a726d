import Smews.System.Ring

/-! The peers of the ring: no two connections have the same one, and only TCP segments change the members of a
connection that belong to TCP.
-/

namespace Smews.System

open Smews.Core Input Output Runs

variable {p : Program}

--------------------------------------------------
-- Peers
--------------------------------------------------

/-- The address and the port at the other end of an HTTP connection. -/
def peerOf (k : Connection) : Option (UInt32 × UInt16) :=
  match k.protocol with
  | .http c => some (c.ipAddr, c.port)
  | .gpip _ => none

/-- The peers of a ring. -/
def peers (ring : List Connection) : List (UInt32 × UInt16) := ring.filterMap peerOf

theorem isPeer_iff {seg : TcpSegment} {k : Connection}
    : isPeer seg k = true ↔ peerOf k = some (seg.srcAddr, seg.srcPort) := by
  obtain ⟨a, protocol⟩ := k
  cases protocol with
  | gpip g => simp [isPeer, peerOf]
  | http c =>
      simp only [isPeer, peerOf, Bool.and_eq_true, decide_eq_true_eq, Option.some.injEq, Prod.mk.injEq]
      exact and_comm

--------------------------------------------------
-- What only segments change
--------------------------------------------------

/-- The members of a connection that only TCP segments change. -/
structure SegmentFrame (c c' : HttpConnection) : Prop where
  ipAddr : c'.ipAddr = c.ipAddr
  port : c'.port = c.port
  tcpMss : c'.tcpMss = c.tcpMss
  tcpState : c'.tcpState = c.tcpState
  currentInseqno : c'.currentInseqno = c.currentInseqno
  cwnd : c'.cwnd = c.cwnd

theorem SegmentFrame.refl (c : HttpConnection) : SegmentFrame c c := ⟨rfl, rfl, rfl, rfl, rfl, rfl⟩

theorem SegmentFrame.of_served {h : HandlerRef} {c c' : HttpConnection} (served : Served h c c')
    : SegmentFrame c c' :=
  ⟨served.ipAddr, served.port, served.tcpMss, served.tcpState, served.currentInseqno, served.cwnd⟩

theorem advance_segmentFrame {t : Server} (c : HttpConnection) (h : HandlerRef) (length : Nat)
    : SegmentFrame c (advance p t c h length) := by
  unfold advance
  dsimp only
  split
  · exact ⟨rfl, rfl, rfl, rfl, rfl, rfl⟩
  · split
    · split <;> exact ⟨rfl, rfl, rfl, rfl, rfl, rfl⟩
    · exact ⟨rfl, rfl, rfl, rfl, rfl, rfl⟩

/-- A connection after a control packet. -/
theorem control_segmentFrame {t : Server} (old handler : Option HandlerRef) (c : HttpConnection)
    (h : HandlerRef) (time : UInt8)
    : SegmentFrame c (afterControl old { advance p t { c with outputHandler := handler } h 0 with
        transmissionTime := time }) := by
  obtain ⟨ipAddr, port, tcpMss, tcpState, currentInseqno, cwnd⟩ :=
    advance_segmentFrame (p := p) (t := t) { c with outputHandler := handler } h 0
  unfold afterControl
  split
  · exact ⟨ipAddr, port, tcpMss, tcpState, currentInseqno, cwnd⟩
  · split <;> exact ⟨ipAddr, port, tcpMss, tcpState, currentInseqno, cwnd⟩

/-- A connection of a ring and what an event made of it. -/
def FramedBy (k k' : Connection) : Prop :=
  k' = k ∨ ∃ c c', k.protocol = .http c ∧ k' = { k with protocol := .http c' } ∧ SegmentFrame c c'

theorem FramedBy.http {a : Addr} {c c' : HttpConnection} (frame : SegmentFrame c c')
    : FramedBy ⟨a, .http c⟩ ⟨a, .http c'⟩ :=
  .inr ⟨c, c', rfl, rfl, frame⟩

theorem FramedBy.peerOf {k k' : Connection} (framed : FramedBy k k') : peerOf k' = peerOf k := by
  rcases framed with rfl | ⟨c, c', isHttp, rfl, frame⟩
  · rfl
  · simp [System.peerOf, isHttp, frame.ipAddr, frame.port]

/-- A ring after an event: connections of the ring before, each with what only segments change. -/
structure RingFramed (ring ring' : List Connection) : Prop where
  kept : ∀ a c', ⟨a, .http c'⟩ ∈ ring' → ∃ c, ⟨a, .http c⟩ ∈ ring ∧ SegmentFrame c c'
  peers : (peers ring').Subperm (peers ring)

section RingFramed

variable {ring ring' ring'' : List Connection}

/-- A ring of connections of the other one. -/
theorem RingFramed.of_subperm (sub : ring'.Subperm ring) : RingFramed ring ring' := by
  refine ⟨fun _ c' mem => ⟨c', sub.subset mem, .refl c'⟩, ?_⟩
  obtain ⟨l, perm, sublist⟩ := sub
  exact ⟨l.filterMap peerOf, perm.filterMap _, sublist.filterMap _⟩

theorem RingFramed.refl (ring : List Connection) : RingFramed ring ring :=
  .of_subperm (List.Subperm.refl ring)

theorem RingFramed.trans (first : RingFramed ring ring') (second : RingFramed ring' ring'') : RingFramed ring ring'' := by
  refine ⟨fun a c'' mem => ?_, second.peers.trans first.peers⟩
  obtain ⟨c', mem, frame'⟩ := second.kept a c'' mem
  obtain ⟨c, mem, frame⟩ := first.kept a c' mem
  exact ⟨c, mem, frame'.ipAddr.trans frame.ipAddr, frame'.port.trans frame.port,
    frame'.tcpMss.trans frame.tcpMss, frame'.tcpState.trans frame.tcpState,
    frame'.currentInseqno.trans frame.currentInseqno, frame'.cwnd.trans frame.cwnd⟩

theorem RingFramed.nodup (framed : RingFramed ring ring') (distinct : (System.peers ring).Nodup)
    : (System.peers ring').Nodup := by
  obtain ⟨l, perm, sublist⟩ := framed.peers
  exact perm.nodup_iff.mp (distinct.sublist sublist)

/-- Rings whose connections belong together one by one, by induction on the rings. -/
theorem RingFramed.of_forall₂ (all : List.Forall₂ FramedBy ring ring') : RingFramed ring ring' := by
  induction all with
  | nil => exact .refl []
  | @cons k k' ring ring' framed _ ih =>
      obtain ⟨kept, sub⟩ := ih
      refine ⟨fun a c' mem => ?_, ?_⟩
      · rcases List.mem_cons.mp mem with rfl | mem
        · rcases framed with rfl | ⟨c, d, isHttp, eq, frame⟩
          · exact ⟨c', List.mem_cons_self, .refl c'⟩
          · simp only [Connection.mk.injEq, Protocol.http.injEq] at eq
            obtain ⟨rfl, rfl⟩ := eq
            refine ⟨c, ?_, frame⟩
            rw [← isHttp]
            exact List.mem_cons_self
        · obtain ⟨c, mem, frame⟩ := kept a c' mem
          exact ⟨c, List.mem_cons_of_mem _ mem, frame⟩
      · rw [System.peers, System.peers, List.filterMap_cons, List.filterMap_cons, framed.peerOf]
        split
        · exact sub
        · exact (List.subperm_cons _).mpr sub

/-- A change of the last connection of a ring. -/
theorem RingFramed.last (before : List Connection) {a : Addr} {c c' : HttpConnection}
    (frame : SegmentFrame c c')
    : RingFramed (before ++ [⟨a, .http c⟩]) (before ++ [⟨a, .http c'⟩]) :=
  .of_forall₂ (List.rel_append (List.forall₂_same.mpr fun _ _ => .inl rfl) (.cons (.http frame) .nil))

/-- A new connection above IP. -/
theorem RingFramed.gpip (ring : List Connection) (a : Addr) (g : GpIpConnection)
    : RingFramed ring (ring ++ [⟨a, .gpip g⟩]) := by
  refine ⟨fun b c mem => ?_, ?_⟩
  · rw [List.mem_append, List.mem_singleton] at mem
    rcases mem with mem | eq
    · exact ⟨c, mem, .refl c⟩
    · cases eq
  · have none : [(⟨a, .gpip g⟩ : Connection)].filterMap peerOf = [] := rfl
    rw [System.peers, List.filterMap_append, none, List.append_nil]
    exact List.Subperm.refl _

/-- The connection that `smews_send` serves. -/
theorem RingFramed.serves {t s' : Server} {before : List Connection} {b : Addr} {d : HttpConnection}
    (ring : t.connections = before ++ [⟨b, .http d⟩]) (serves : Serves p t before b d s')
    : RingFramed t.connections s'.connections := by
  have dropped : RingFramed t.connections before :=
    .of_subperm (ring ▸ (List.sublist_append_left before _).subperm)
  cases serves with
  | ack instead sent ring' =>
      rcases ring' with ⟨-, ring'⟩ | ⟨-, ring'⟩ <;> rw [ring']
      · exact dropped
      · rw [ring]
        exact .last before (control_segmentFrame _ _ d _ _)
  | control h ready noAck handler isControl sent ring' =>
      rcases ring' with ⟨-, ring'⟩ | ⟨-, ring'⟩ <;> rw [ring']
      · exact dropped
      · rw [ring]
        exact .last before (control_segmentFrame none d.outputHandler d _ _)
  | file h file payload ready noAck handler isFile content sent ring' =>
      rw [ring', ring]
      obtain ⟨ipAddr, port, tcpMss, tcpState, currentInseqno, cwnd⟩ :=
        advance_segmentFrame (p := p) (t := t) d h payload.length
      exact .last before ⟨ipAddr, port, tcpMss, tcpState, currentInseqno, cwnd⟩
  | generator h resource ready noAck handler isGenerator call served =>
      refine .of_forall₂ (served.ring.imp fun k k' by_ => ?_)
      rcases by_ with rfl | ⟨c, c', isHttp, rfl, pair⟩
      · exact .inl rfl
      · exact .inr ⟨c, c', isHttp, rfl, .of_served pair⟩

end RingFramed

--------------------------------------------------
-- Events
--------------------------------------------------

theorem smewsSend_framed {s s' : Server} (step : smewsSend p s = some s')
    : RingFramed s.connections s'.connections := by
  cases smewsSend_sends step with
  | nothing _ _ same =>
      rw [same]
      exact .refl _
  | reset rst same =>
      rw [same]
      exact .refl _
  | gpip i before b g rst chosen ring answered =>
      rw [answered.ring]
      refine .of_subperm (List.Subperm.trans ?_ (rotate_perm i s).subperm)
      exact ring ▸ (List.sublist_append_left before _).subperm
  | http i before b d rst chosen able ring serves =>
      exact (RingFramed.of_subperm (rotate_perm i s).subperm).trans (.serves ring serves)

/-- A change of all the HTTP connections that leaves alone what only segments change. -/
theorem mapHttp_framed {f : HttpConnection → HttpConnection} {s : Server} (frame : ∀ c, SegmentFrame c (f c))
    : RingFramed s.connections (mapHttp f s).connections := by
  refine .of_forall₂ ?_
  rw [mapHttp, List.forall₂_map_right_iff, List.forall₂_same]
  intro k _
  obtain ⟨a, protocol⟩ := k
  cases protocol with
  | http c => exact .http (frame c)
  | gpip g => exact .inl rfl

/-- Every event but a TCP segment. -/
theorem step_framed {event : Event} {s s' : Server} (step : Step p s event s')
    (other : ∀ seg, event ≠ .receive seg)
    : RingFramed s.connections s'.connections := by
  cases event with
  | receive seg => exact absurd rfl (other seg)
  | receiveGpIp srcAddr protocol payload =>
      cases smewsReceiveGpIp_receives step with
      | unknown _ same | exhausted _ _ same | dropped _ _ _ _ _ _ _ _ same =>
          subst same
          exact .refl _
      | accepted h g b heap code _ _ _ _ _ same =>
          subst same
          exact .gpip _ _ _
  | send => exact smewsSend_framed step
  | retransmit =>
      simp only [Step, next, Option.some.injEq] at step
      subst step
      refine mapHttp_framed (s := { s with lastTransmissionTime := s.lastTransmissionTime + 1 }) fun c => ?_
      unfold rollBack
      split <;> exact ⟨rfl, rfl, rfl, rfl, rfl, rfl⟩
  | push handler =>
      simp only [Step, next, Option.some.injEq] at step
      subst step
      unfold serverPush
      split
      · refine mapHttp_framed fun c => ?_
        split <;> exact ⟨rfl, rfl, rfl, rfl, rfl, rfl⟩
      · exact .refl _
  | packetOut protocol address =>
      simp only [Step, next, Option.some.injEq] at step
      subst step
      unfold requestPacketOutCall
      split
      · exact .refl _
      · rename_i handler _
        rcases addConnection_cases (p := p) s (.gpip {
            ipAddr := address
            outputHandler := handler
            payloadSize := 0
            protocol
            wantToSend := 1
          }) with ⟨-, kept⟩ | ⟨b, -, ring⟩
        · rw [kept]
          exact .refl _
        · rw [ring]
          exact .gpip _ _ _

/-- A segment from a peer with a connection adds none. -/
theorem smewsReceive_absent {seg : TcpSegment} {s s' : Server} {a : Addr} {c : HttpConnection}
    (step : smewsReceive p seg s = some s') (ring : s'.connections = s.connections ++ [⟨a, .http c⟩])
    : (seg.srcAddr, seg.srcPort) ∉ peers s.connections := by
  intro mem
  obtain ⟨k, mem, peer⟩ := List.mem_filterMap.mp mem
  rcases findConnection_cases (p := p) s seg with ⟨i, b, d, found, at_i, -⟩ | ⟨-, absent⟩
  swap
  · exact absent k mem (isPeer_iff.mpr peer)
  have longer := congrArg List.length ring
  rw [List.length_append, List.length_singleton] at longer
  unfold smewsReceive at step
  split at step
  swap
  · rw [← Option.some.inj step] at longer
    omega
  rw [Option.bind_eq_bind, Option.bind_eq_some_iff] at step
  obtain ⟨outcome, -, rest⟩ := step
  cases outcome with
  | inr heap =>
      rw [← Option.some.inj rest] at longer
      dsimp only at longer
      omega
  | inl d =>
      dsimp only at rest
      split at rest
      swap
      · rw [← Option.some.inj rest] at longer
        dsimp only at longer
        omega
      unfold commit at rest
      rw [found, Option.bind_eq_bind, Option.bind_eq_some_iff] at rest
      obtain ⟨⟨c', t⟩, service, rest⟩ := rest
      have same := (commitService_spec service).1
      dsimp only at rest same
      split at rest
      · rw [freeConnection_connections rest, same, List.length_append, List.length_drop,
          List.length_take] at longer
        omega
      · rw [← Option.some.inj rest, Server.setHttp, List.length_modify, same] at longer
        omega

/-- What the processing of a segment leaves of a connection. -/
theorem Processed.peer {seg : TcpSegment} {c c' : HttpConnection} {heap : Heap}
    (processed : Processed p seg c heap c')
    : c'.ipAddr = c.ipAddr ∧ c'.port = c.port :=
  ⟨processed.frame.ipAddr.trans (received_frame seg c).ipAddr,
    processed.frame.port.trans (received_frame seg c).port⟩

/-- A store into a connection keeps its peer. -/
theorem peers_setHttp {s : Server} {i : Nat} {a : Addr} {c c' : HttpConnection}
    (at_i : s.connections[i]? = some ⟨a, .http c⟩) (ipAddr : c'.ipAddr = c.ipAddr) (port : c'.port = c.port)
    : peers (s.setHttp i c').connections = peers s.connections := by
  obtain ⟨lt, eq⟩ := List.getElem?_eq_some_iff.mp at_i
  have split := List.take_append_drop i s.connections
  rw [List.drop_eq_getElem_cons lt, eq] at split
  have changed : (s.setHttp i c').connections
      = s.connections.take i ++ ⟨a, .http c'⟩ :: s.connections.drop (i + 1) := by
    rw [Server.setHttp, List.modify_eq_take_cons_drop lt, eq]
  rw [changed]
  conv_rhs => rw [← split]
  rw [peers, peers, List.filterMap_append, List.filterMap_append, List.filterMap_cons, List.filterMap_cons]
  simp [peerOf, ipAddr, port]

/-- No two connections of the ring have the same peer, before and after an event. -/
theorem step_peers {event : Event} {s s' : Server} (step : Step p s event s')
    (distinct : (peers s.connections).Nodup)
    : (peers s'.connections).Nodup := by
  by_cases receive : ∃ seg, event = .receive seg
  swap
  · exact (step_framed step fun seg eq => receive ⟨seg, eq⟩).nodup distinct
  obtain ⟨seg, rfl⟩ := receive
  cases smewsReceive_receives step with
  | ignored ring => rwa [ring]
  | stored i a c c' service found at_i peer port valid processed opened ring =>
      obtain ⟨ipAddr, port⟩ := Processed.peer processed
      rwa [ring, peers_setHttp at_i (by exact ipAddr) (by exact port)]
  | freed i a c at_i ring =>
      rw [ring]
      refine RingFramed.nodup (.of_subperm ?_) distinct
      refine List.perm_append_comm.subperm.trans ?_
      conv_rhs => rw [← List.take_append_drop i s.connections]
      exact ((List.drop_sublist_drop_left s.connections (Nat.le_succ i)).append_left _).subperm
  | added a c' valid processed syn ring =>
      obtain ⟨ipAddr, port⟩ := Processed.peer processed
      have absent := smewsReceive_absent step ring
      have one : [(⟨a, .http c'⟩ : Connection)].filterMap peerOf = [(seg.srcAddr, seg.srcPort)] := by
        simp [peerOf, ipAddr, port, listenConnection]
      rw [ring, peers, List.filterMap_append, one]
      exact List.nodup_append.mpr ⟨distinct, List.nodup_singleton _, fun x mem y own => by
        rw [List.mem_singleton.mp own]
        exact fun eq => absent (eq ▸ mem)⟩

/-- Connections of a ring with the same peer are the same. -/
theorem peer_unique {ring : List Connection} (distinct : (peers ring).Nodup) {k k' : Connection}
    (mem : k ∈ ring) (mem' : k' ∈ ring) {peer : UInt32 × UInt16} (own : peerOf k = some peer)
    (own' : peerOf k' = some peer)
    : k = k' := by
  induction ring with
  | nil => exact (List.not_mem_nil mem).elim
  | cons x ring ih =>
      have rest (other : Connection) (mem : other ∈ ring) (own : peerOf other = some peer) : peerOf x ≠ some peer := by
        intro same
        rw [peers, List.filterMap_cons, same] at distinct
        exact (List.nodup_cons.mp distinct).1 (List.mem_filterMap.mpr ⟨other, mem, own⟩)
      have tail : (peers ring).Nodup := by
        rw [peers, List.filterMap_cons] at distinct
        split at distinct
        · exact distinct
        · exact (List.nodup_cons.mp distinct).2
      rcases List.mem_cons.mp mem with rfl | mem
      · rcases List.mem_cons.mp mem' with rfl | mem'
        · rfl
        · exact absurd own (rest k' mem' own')
      · rcases List.mem_cons.mp mem' with rfl | mem'
        · exact absurd own' (rest k (by assumption) own)
        · exact ih tail mem mem'

end Smews.System
