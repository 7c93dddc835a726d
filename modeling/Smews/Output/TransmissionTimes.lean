import Smews.Output.Multicast

/-! When the connections transmitted last. A packet of a connection sets its time to the counter of
`smews_retransmit`; what else `smews_send` does leaves the times alone.
-/

namespace Smews.Output

open Smews.Core

variable {p : Program}

--------------------------------------------------
-- Stamps
--------------------------------------------------

/-- The peer of an HTTP connection, and when it transmitted last. -/
def stampOf (k : Connection) : Option ((UInt32 × UInt16) × UInt8) :=
  match k.protocol with
  | .http c => some ((c.ipAddr, c.port), c.transmissionTime)
  | .gpip _ => none

def stamps (ring : List Connection) : List (Option ((UInt32 × UInt16) × UInt8)) := ring.map stampOf

/-- Whether a packet was sent on the connection of a peer. -/
def sentTo (peer : UInt32 × UInt16) : Option Addr × Packet → Bool
  | (some _, ⟨destination, .tcp port _ _ _ _ _⟩) => destination = peer.1 && port = peer.2
  | _ => false

/-- The stamp of a connection before and after a packet may have been sent on it. -/
def StampedBy (now : UInt8) (new : List (Option Addr × Packet))
    (x y : Option ((UInt32 × UInt16) × UInt8))
    : Prop :=
  y = x ∨ ∃ peer time, x = some (peer, time) ∧ y = some (peer, now) ∧ ∃ entry ∈ new, sentTo peer entry

/-- The server before and after some emissions. -/
structure Stamped (s s' : Server) : Prop where
  time : s'.lastTransmissionTime = s.lastTransmissionTime
  emitted : ∃ new, s'.sent = s.sent ++ new
    ∧ List.Forall₂ (StampedBy s.lastTransmissionTime new) (stamps s.connections) (stamps s'.connections)
    ∧ ∀ entry ∈ new, ∃ peer, sentTo peer entry ∧ some (peer, s.lastTransmissionTime) ∈ stamps s'.connections

section Stamped

variable {s s' s'' : Server} {now : UInt8} {new new' : List (Option Addr × Packet)}
  {x y z : Option ((UInt32 × UInt16) × UInt8)}

theorem StampedBy.mono (stamped : StampedBy now new x y) (sub : new ⊆ new') : StampedBy now new' x y := by
  rcases stamped with same | ⟨peer, time, before, after, entry, mem, reaches⟩
  · exact .inl same
  · exact .inr ⟨peer, time, before, after, entry, sub mem, reaches⟩

theorem StampedBy.trans (first : StampedBy now new x y) (second : StampedBy now new y z) : StampedBy now new x z := by
  rcases first with rfl | ⟨peer, time, before, rfl, emission⟩
  · exact second
  · rcases second with rfl | ⟨_, _, same, rfl, -⟩
    · exact .inr ⟨peer, time, before, rfl, emission⟩
    · cases same
      exact .inr ⟨peer, time, before, rfl, emission⟩

/-- Nothing is sent, and the times stay. -/
theorem Stamped.of_eq (ring : stamps s'.connections = stamps s.connections) (sent : s'.sent = s.sent)
    (time : s'.lastTransmissionTime = s.lastTransmissionTime)
    : Stamped s s' := by
  refine ⟨time, [], by rw [sent, List.append_nil], ?_, fun _ mem => nomatch mem⟩
  rw [ring]
  exact List.forall₂_same.mpr fun _ _ => .inl rfl

/-- A stamp of now stays one. -/
theorem forall₂_stampedBy_now {ring ring' : List (Option ((UInt32 × UInt16) × UInt8))} {peer : UInt32 × UInt16}
    (all : List.Forall₂ (StampedBy now new) ring ring') (mem : some (peer, now) ∈ ring)
    : some (peer, now) ∈ ring' := by
  induction all with
  | nil => exact nomatch mem
  | cons first _ ih =>
      rcases List.mem_cons.mp mem with rfl | mem
      · rcases first with rfl | ⟨_, _, same, rfl, -⟩
        · exact List.mem_cons_self
        · cases same
          exact List.mem_cons_self
      · exact List.mem_cons_of_mem _ (ih mem)

/-- Pairs of two chains of rings, by induction on the first one. -/
theorem forall₂_stampedBy_trans {ring ring' ring'' : List (Option ((UInt32 × UInt16) × UInt8))}
    (first : List.Forall₂ (StampedBy now new) ring ring') (second : List.Forall₂ (StampedBy now new) ring' ring'')
    : List.Forall₂ (StampedBy now new) ring ring'' := by
  induction first generalizing ring'' with
  | nil => exact second
  | cons pair _ ih =>
      cases second with
      | cons pair' rest => exact .cons (pair.trans pair') (ih rest)

theorem Stamped.trans (first : Stamped s s') (second : Stamped s' s'') : Stamped s s'' := by
  obtain ⟨time, new, sent, ring, packets⟩ := first
  obtain ⟨time', new', sent', ring', packets'⟩ := second
  rw [time] at ring' packets'
  refine ⟨time'.trans time, new ++ new', by rw [sent', sent, List.append_assoc], ?_, fun entry mem => ?_⟩
  · exact forall₂_stampedBy_trans (ring.imp fun _ _ pair => pair.mono (List.subset_append_left _ _))
      (ring'.imp fun _ _ pair => pair.mono (List.subset_append_right _ _))
  · rcases List.mem_append.mp mem with mem | mem
    · obtain ⟨peer, reaches, now⟩ := packets entry mem
      exact ⟨peer, reaches, forall₂_stampedBy_now ring' now⟩
    · exact packets' entry mem

/-- Only the ring, the packets and the clock of the first state matter. -/
theorem Stamped.from (stamped : Stamped s' s'') (ring : s'.connections = s.connections) (sent : s'.sent = s.sent)
    (time : s'.lastTransmissionTime = s.lastTransmissionTime)
    : Stamped s s'' :=
  (Stamped.of_eq (by rw [ring]) sent time).trans stamped

theorem Stamped.refl (s : Server) : Stamped s s := .of_eq rfl rfl rfl

/-- A store into the connection at a position. -/
theorem stamps_setHttp {i : Nat} {c c' : HttpConnection} (here : s.http i = some c)
    (peer : (c'.ipAddr, c'.port) = (c.ipAddr, c.port)) (time : c'.transmissionTime = c.transmissionTime)
    : stamps (s.setHttp i c').connections = stamps s.connections := by
  obtain ⟨addr, at_i⟩ := http_eq here
  refine List.ext_getElem? fun j => ?_
  rw [stamps, stamps, Server.setHttp, List.getElem?_map, List.getElem?_map, List.getElem?_modify]
  by_cases same : i = j
  · subst same
    simp [at_i, stampOf, peer, time]
  · simp [same]

end Stamped

--------------------------------------------------
-- The preparation of a segment
--------------------------------------------------

theorem stamps_markPassive (i : Nat) (h : HandlerRef) (s : Server)
    : stamps (markPassive i h s).connections = stamps s.connections := by
  refine List.ext_getElem? fun j => ?_
  simp only [stamps, markPassive, List.getElem?_map, List.getElem?_zipIdx]
  cases s.connections[j]? with
  | none => rfl
  | some k =>
      obtain ⟨a, protocol⟩ := k
      cases protocol with
      | gpip g => rfl
      | http c =>
          simp only [Option.map_some, Option.some.injEq]
          split <;> rfl

theorem initService_stamped {i : Nat} {a : Addr} {c : HttpConnection} {h : HandlerRef} {resource : DynamicResource}
    {s : Server} (here : s.http i = some c)
    : Stamped s (initService p i c h resource a s) := by
  have stored (streaming : Bool)
      : stamps (s.setHttp i { c with
          generatorService := some a
          finalOutseqno := c.nextOutseqno - 1
          cometStreaming := streaming }).connections = stamps s.connections :=
    stamps_setHttp here rfl rfl
  unfold initService
  dsimp only
  split
  · exact .of_eq ((stamps_markPassive i h _).trans (stored _)) rfl rfl
  · exact .of_eq (stored _) rfl rfl

theorem openService_stamped {i : Nat} {c : HttpConnection} {h : HandlerRef} {s : Server} (resource : DynamicResource)
    (here : s.http i = some c)
    : Stamped s (openService p i c h resource s).2 := by
  unfold openService createService
  dsimp only
  split
  · exact .of_eq rfl rfl rfl
  · split
    · exact .of_eq rfl rfl rfl
    · rename_i a heap _
      let t : Server := { s with heap, currOutput := { s.currOutput with maxBytes := maxBytes p c.tcpMss .none } }
      have initialized : Stamped t (initService p i c h resource a t) := initService_stamped here
      exact initialized.from rfl rfl rfl

theorem runGenerator_stamped {i : Nat} {a : Addr} {c : HttpConnection} {buffer : Addr} {s s' : Server} {ended : Bool}
    (run : runGenerator p i a c buffer s = some (ended, s')) (here : s.http i = some c)
    : Stamped s s' := by
  unfold runGenerator at run
  rw [Option.bind_eq_bind, Option.bind_eq_some_iff] at run
  obtain ⟨⟨⟨frame, bytes⟩, heap⟩, -, rest⟩ := run
  dsimp only at rest
  split at rest <;> simp only [Option.some.injEq, Prod.mk.injEq] at rest <;> obtain ⟨-, rfl⟩ := rest
  · exact .of_eq rfl rfl rfl
  · unfold cleanPostData
    split
    · exact .of_eq rfl rfl rfl
    · exact .of_eq (stamps_setHttp (c := c) here rfl rfl) rfl rfl

theorem setupSegment_time (a : Addr) (seqno : UInt32) (retransmitting : Bool) (s : Server)
    : (setupSegment a seqno retransmitting s).lastTransmissionTime = s.lastTransmissionTime := by
  unfold setupSegment setupHeader contextRestore
  cases retransmitting with
  | false => rfl
  | true =>
      cases found : ifSelect (s.service a) seqno with
      | none => rfl
      | some r => cases infos : r.infos <;> simp [infos, Server.setOutput]

theorem prepareRecord_time (a : Addr) (seqno : UInt32) (buffer : Addr) (s : Server)
    : (prepareRecord p a seqno buffer s).state.lastTransmissionTime = s.lastTransmissionTime := by
  have backup (t : Server) (addr : Addr) (header : ServiceHeader)
      : (contextBackup p a addr seqno header t).2.lastTransmissionTime = t.lastTransmissionTime := by
    unfold contextBackup
    dsimp only
    split
    · rfl
    · split_ifs <;> rfl
  unfold prepareRecord
  dsimp only
  split
  · rfl
  · rename_i addr heap _
    have same := backup { s with heap } addr s.currOutput.serviceHeader
    split_ifs
    · rfl
    · split <;> rename_i eq <;> rw [eq] at same <;> exact same

theorem recordBuffer_stamped (a addr : Addr) (seqno : UInt32) (buffer : Addr) (s : Server)
    : Stamped s (recordBuffer a addr seqno buffer s) := by
  unfold recordBuffer
  dsimp only
  split
  · exact .of_eq rfl rfl rfl
  · exact .refl s

theorem generate_stamped {i : Nat} {a : Addr} {c : HttpConnection} {retransmitting : Bool} {s : Server}
    {progress : Progress Bool} (step : generate p i a c retransmitting s = some progress)
    (here : s.http i = some c)
    : Stamped s progress.state := by
  have setUp := setupSegment_spec s a c.nextOutseqno retransmitting
  have set : Stamped s (setupSegment a c.nextOutseqno retransmitting s) :=
    .of_eq (by rw [setUp.connections]) setUp.sent (setupSegment_time ..)
  have here' := (http_of_connections setUp.connections i).trans here
  unfold generate at step
  dsimp only at step
  clear setUp
  generalize setupSegment a c.nextOutseqno retransmitting s = t at step set here'
  refine set.trans ?_
  split_ifs at step
  · rw [← Option.some.inj step]
    exact .refl t
  · unfold regenerate at step
    split at step
    · rw [← Option.some.inj step]
      exact .of_eq rfl rfl rfl
    · rename_i buffer heap _
      rw [Option.map_eq_some_iff] at step
      obtain ⟨⟨ended, u⟩, run, rfl⟩ := step
      have ran : Stamped { t with heap } u := runGenerator_stamped run here'
      exact ran.from rfl rfl rfl
  · unfold generateNew at step
    split at step
    · rw [← Option.some.inj step]
      exact .of_eq rfl rfl rfl
    · rename_i buffer heap _
      have calm := prepareRecord_state (p := p) a c.nextOutseqno buffer { t with heap }
      have time := prepareRecord_time (p := p) a c.nextOutseqno buffer { t with heap }
      have prepared : Stamped t (prepareRecord p a c.nextOutseqno buffer { t with heap }).state :=
        .of_eq (by rw [calm.connections]) calm.sent time
      split at step
      · rename_i u eq
        rw [eq] at prepared
        rw [← Option.some.inj step]
        exact prepared
      · rename_i addr u eq
        rw [eq] at prepared calm
        rw [Option.map_eq_some_iff] at step
        obtain ⟨⟨ended, v⟩, run, rfl⟩ := step
        have ran : Stamped t v := prepared.trans (runGenerator_stamped run ((calm.http i).trans here'))
        exact ran.trans (recordBuffer_stamped a addr c.nextOutseqno buffer v)

theorem prepareSegment_stamped {i : Nat} {a : Addr} {c : HttpConnection} {h : HandlerRef} {s : Server}
    {progress : Progress Bool} (step : prepareSegment p i a c h s = some progress) (here : s.http i = some c)
    : Stamped s progress.state := by
  unfold prepareSegment at step
  dsimp only at step
  split at step
  · rw [← Option.some.inj step]
    exact .of_eq rfl rfl rfl
  · rw [Option.map_eq_some_iff] at step
    obtain ⟨generated, segment, rfl⟩ := step
    have same : Stamped s generated.state := by
      unfold nextSegment at segment
      split at segment
      · rw [Option.map_eq_some_iff] at segment
        obtain ⟨v, again, rfl⟩ := segment
        unfold resend at again
        rw [Option.bind_eq_bind, Option.bind_eq_some_iff] at again
        obtain ⟨r, -, stored⟩ := again
        split at stored
        · cases stored
        · rw [← Option.some.inj stored]
          exact .of_eq rfl rfl rfl
      · have generated := generate_stamped segment (by exact here)
        exact generated.from rfl rfl rfl
    cases generated with
    | stop u => exact same
    | go ended u => exact same.trans (.of_eq rfl rfl rfl)

--------------------------------------------------
-- The emission
--------------------------------------------------

theorem advance_peer (s : Server) (c : HttpConnection) (h : HandlerRef) (length : Nat)
    : ((advance p s c h length).ipAddr, (advance p s c h length).port) = (c.ipAddr, c.port) := by
  obtain ⟨ipAddr, port, -⟩ := advance_frame (p := p) (t := s) c h length
  rw [ipAddr, port]

theorem sendPacket_stamped {i : Nat} {s s' : Server} (send : sendPacket p i s = some s') : Stamped s s' := by
  obtain ⟨addr, c, h, payload, at_i, -, -, rfl⟩ := sendPacket_spec send
  have reaches : sentTo (c.ipAddr, c.port) (some addr, packetFor p c h payload) = true := by
    simp [sentTo, packetFor]
  set c' := { advance p s c h payload.length with transmissionTime := s.lastTransmissionTime } with c'_eq
  have stamp : stampOf ⟨addr, .http c'⟩ = some ((c.ipAddr, c.port), s.lastTransmissionTime) := by
    rw [← advance_peer (p := p) s c h payload.length]
    rfl
  have stored : (s.setHttp i c').connections[i]? = some ⟨addr, .http c'⟩ := by
    simp [Server.setHttp, at_i]
  refine ⟨rfl, [(some addr, packetFor p c h payload)], rfl, ?_, ?_⟩
  · rw [stamps, stamps, List.forall₂_map_left_iff, List.forall₂_map_right_iff, List.forall₂_iff_get]
    refine ⟨(List.length_modify ..).symm, fun j hj hj' => ?_⟩
    rw [List.get_eq_getElem, List.get_eq_getElem]
    by_cases same : i = j
    · subst same
      rw [(List.getElem?_eq_some_iff.mp at_i).2, (List.getElem?_eq_some_iff.mp stored).2, stamp]
      exact .inr ⟨_, c.transmissionTime, rfl, rfl, _, List.mem_singleton_self _, reaches⟩
    · simp only [Server.setHttp, List.getElem_modify, same, if_false]
      exact .inl rfl
  · intro entry mem
    rw [List.mem_singleton.mp mem]
    exact ⟨_, reaches, List.mem_map.mpr ⟨_, List.mem_of_getElem? stored, stamp⟩⟩

theorem endStream_stamped {i : Nat} {ended : Bool} {s s' : Server} (step : endStream i ended s = some s')
    : Stamped s s' := by
  unfold endStream at step
  split_ifs at step
  · rw [Option.map_eq_some_iff] at step
    obtain ⟨c, here, rfl⟩ := step
    exact .of_eq (stamps_setHttp here rfl rfl) rfl rfl
  · rw [← Option.some.inj step]
    exact .refl s

theorem multicastTo_stamped {h : HandlerRef} {ended : Bool} {j : Nat} {s s' : Server}
    (send : multicastTo p h ended j s = some s')
    : Stamped s s' := by
  unfold multicastTo at send
  rw [Option.bind_eq_bind, Option.bind_eq_some_iff] at send
  obtain ⟨connection, -, send⟩ := send
  split at send
  · rw [← Option.some.inj send]
    exact .refl s
  · split_ifs at send
    · rw [Option.bind_eq_some_iff] at send
      obtain ⟨t, first, last⟩ := send
      exact (sendPacket_stamped first).trans (endStream_stamped last)
    · exact endStream_stamped send
    · exact sendPacket_stamped send
    · rw [← Option.some.inj send]
      exact .refl s

theorem emit_stamped {i : Nat} {h : HandlerRef} {ended : Bool} {s s' : Server}
    (send : emit p i h ended s = some s')
    : Stamped s s' := by
  unfold emit at send
  split_ifs at send
  · generalize List.range s.connections.length = js at send
    induction js generalizing s with
    | nil =>
        simp only [List.foldlM_nil, Option.pure_def, Option.some.injEq] at send
        rw [send]
        exact .refl s'
    | cons j js ih =>
        rw [List.foldlM_cons, Option.bind_eq_bind, Option.bind_eq_some_iff] at send
        obtain ⟨t, first, rest⟩ := send
        exact (multicastTo_stamped first).trans (ih rest)
  · exact sendPacket_stamped send

theorem concludeSegment_stamped {i : Nat} {a : Addr} {h : HandlerRef} {retransmitting ended : Bool} {s s' : Server}
    (step : concludeSegment p i a h retransmitting ended s = some s')
    : Stamped s s' := by
  unfold concludeSegment at step
  dsimp only at step
  rw [Option.bind_eq_bind, Option.bind_eq_some_iff] at step
  obtain ⟨c, here, rest⟩ := step
  have here : s.http i = some c := by
    split at here <;> exact here
  have stored (t : Server) (same : t.connections = s.connections)
      : stamps (t.setHttp i { c with generatorService := none }).connections = stamps s.connections := by
    rw [stamps_setHttp (c := c) ((http_of_connections same i).trans here) (by rfl) (by rfl), same]
  split at rest <;> rw [← Option.some.inj rest]
  · refine .of_eq (stored _ ?_) ?_ ?_ <;> (repeat' split) <;> rfl
  · refine .of_eq ?_ ?_ ?_ <;> (repeat' split) <;> rfl

theorem sendGenerator_stamped {i : Nat} {h : HandlerRef} {resource : DynamicResource} {s s' : Server}
    (send : sendGenerator p i h resource s = some s')
    : Stamped s s' := by
  cases here : s.http i with
  | none => simp [sendGenerator, here] at send
  | some c =>
      rw [sendGenerator_eq here] at send
      have opening := openService_stamped (p := p) (h := h) resource here
      cases opened : openService p i c h resource s with
      | mk service t =>
      rw [opened] at send opening
      cases service with
      | none =>
          rw [← Option.some.inj send]
          exact opening
      | some a =>
          dsimp only at send opening
          cases here' : t.http i with
          | none => simp [sendService, here'] at send
          | some c' =>
              rw [sendService_eq here', Option.bind_eq_some_iff] at send
              obtain ⟨progress, prepared, send⟩ := send
              have preparing := opening.trans (prepareSegment_stamped prepared here')
              cases progress with
              | stop u =>
                  rw [← Option.some.inj send]
                  exact preparing
              | go ended u =>
                  dsimp only at send
                  rw [Option.bind_eq_some_iff] at send
                  obtain ⟨v, emitted, concluded⟩ := send
                  exact (preparing.trans (emit_stamped emitted)).trans (concludeSegment_stamped concluded)

--------------------------------------------------
-- One call
--------------------------------------------------

theorem freeConnection_time {i : Nat} {s s' : Server} (free : s.freeConnection p i = some s')
    : s'.lastTransmissionTime = s.lastTransmissionTime := by
  unfold Server.freeConnection at free
  rw [Option.bind_eq_bind, Option.bind_eq_some_iff] at free
  obtain ⟨connection, -, free⟩ := free
  dsimp only at free
  split at free
  · rw [← Option.some.inj free]
  · rw [Option.bind_eq_bind, Option.bind_eq_some_iff] at free
    obtain ⟨heap, -, free⟩ := free
    rw [← Option.some.inj free]
    unfold Server.freeService
    dsimp only
    split <;> rfl

theorem sendControl_time {i : Nat} {old : Option HandlerRef} {s s' : Server}
    (send : sendControl p i old s = some s')
    : s'.lastTransmissionTime = s.lastTransmissionTime := by
  unfold sendControl at send
  rw [Option.bind_eq_bind, Option.bind_eq_some_iff] at send
  obtain ⟨t, packet, send⟩ := send
  rw [Option.bind_eq_bind, Option.bind_eq_some_iff] at send
  obtain ⟨c, -, send⟩ := send
  have before := (sendPacket_stamped packet).time
  dsimp only at send
  split at send
  · exact (freeConnection_time send).trans before
  · split at send
    · rw [← Option.some.inj send, ← before]
      rfl
    · split at send <;> rw [← Option.some.inj send, ← before] <;> rfl

theorem smewsSend_time {s s' : Server} (send : smewsSend p s = some s')
    : s'.lastTransmissionTime = s.lastTransmissionTime := by
  unfold smewsSend at send
  split at send
  · rw [← Option.some.inj send]
    rfl
  · split at send
    · rw [Option.some.inj send]
    · dsimp only at send
      rw [Option.bind_eq_bind, Option.bind_eq_some_iff] at send
      obtain ⟨connection, -, send⟩ := send
      split at send
      · unfold sendGpIp at send
        split at send
        · dsimp only at send
          rw [Option.bind_eq_bind, Option.bind_eq_some_iff] at send
          obtain ⟨k, -, free⟩ := send
          rw [freeConnection_time free]
          rfl
        · cases send
      · unfold sendHttp at send
        rw [Option.bind_eq_bind, Option.bind_eq_some_iff] at send
        obtain ⟨c, -, send⟩ := send
        split at send
        · exact (sendControl_time send).trans rfl
        · rw [Option.bind_eq_bind, Option.bind_eq_some_iff] at send
          obtain ⟨h, -, send⟩ := send
          split at send
          · exact (sendControl_time send).trans rfl
          · exact (sendPacket_stamped send).time.trans rfl
          · exact (sendGenerator_stamped send).time.trans rfl
          · cases send

theorem afterControl_time (old : Option HandlerRef) (c : HttpConnection)
    : (afterControl old c).transmissionTime = c.transmissionTime := by
  unfold afterControl
  split
  · rfl
  · split <;> rfl

/-- The connection that `smews_send` serves, unless it is a generator's: one packet is sent on it, and it is freed or
stamped.
-/
theorem Serves.stamped {s s' : Server} {before : List Connection} {a : Addr} {c : HttpConnection}
    (serves : Serves p s before a c s')
    : Stamped s s'
      ∨ ∃ packet, s'.sent = s.sent ++ [(some a, packet)]
        ∧ (∀ peer, sentTo peer (some a, packet) = true ↔ peer = (c.ipAddr, c.port))
        ∧ (stamps s'.connections = stamps before
          ∨ stamps s'.connections = stamps before ++ [some ((c.ipAddr, c.port), s.lastTransmissionTime)]) := by
  have reaches (d : HttpConnection) (h : HandlerRef) (payload : List UInt8) (own : (d.ipAddr, d.port) = (c.ipAddr, c.port))
      (peer : UInt32 × UInt16)
      : sentTo peer (some a, packetFor p d h payload) = true ↔ peer = (c.ipAddr, c.port) := by
    rw [← own, Prod.ext_iff, eq_comm (a := peer.1), eq_comm (a := peer.2)]
    simp only [sentTo, packetFor, Bool.and_eq_true, decide_eq_true_eq]
  have stored (d : HttpConnection) (own : (d.ipAddr, d.port) = (c.ipAddr, c.port))
      (time : d.transmissionTime = s.lastTransmissionTime)
      : stamps (before ++ [⟨a, .http d⟩])
        = stamps before ++ [some ((c.ipAddr, c.port), s.lastTransmissionTime)] := by
    have stamp : stampOf ⟨a, .http d⟩ = some ((c.ipAddr, c.port), s.lastTransmissionTime) := by
      rw [← own, ← time]
      rfl
    rw [stamps, List.map_append, List.map_singleton, stamp]
    rfl
  have control (old handler : Option HandlerRef) (h : HandlerRef)
      : stamps (before ++ [⟨a, .http (afterControl old { advance p s { c with outputHandler := handler } h 0 with
          transmissionTime := s.lastTransmissionTime })⟩])
        = stamps before ++ [some ((c.ipAddr, c.port), s.lastTransmissionTime)] := by
    refine stored _ ?_ (afterControl_time _ _)
    obtain ⟨ipAddr, port, -⟩ := afterControl_frame old
      { advance p s { c with outputHandler := handler } h 0 with transmissionTime := s.lastTransmissionTime }
    rw [ipAddr, port]
    exact advance_peer s { c with outputHandler := handler } h 0
  cases serves with
  | ack instead sent ring' =>
      refine .inr ⟨_, sent, reaches _ _ _ rfl, ?_⟩
      rcases ring' with ⟨-, ring'⟩ | ⟨-, ring'⟩ <;> rw [ring']
      · exact .inl rfl
      · exact .inr (control _ _ _)
  | control h ready noAck handler isControl sent ring' =>
      refine .inr ⟨_, sent, reaches _ _ _ rfl, ?_⟩
      rcases ring' with ⟨-, ring'⟩ | ⟨-, ring'⟩ <;> rw [ring']
      · exact .inl rfl
      · exact .inr (control none c.outputHandler h)
  | file h file payload ready noAck handler isFile content sent ring' =>
      refine .inr ⟨_, sent, reaches _ _ _ rfl, .inr ?_⟩
      rw [ring']
      exact stored _ (advance_peer s c h payload.length) rfl
  | generator h resource ready noAck handler isGenerator call served => exact .inl (sendGenerator_stamped call)

end Smews.Output
