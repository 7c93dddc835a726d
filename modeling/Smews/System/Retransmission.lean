import Smews.Output.TransmissionTimes
import Smews.System.Peers

/-! The retransmission timer: which connections `smews_retransmit` rolls back, by the value of its counter at their
last transmission.
-/

namespace Smews.System

open Smews.Core Input Output Runs

variable {p : Program}

--------------------------------------------------
-- What the timer is for
--------------------------------------------------

def Event.isRetransmit : Event → Bool
  | .retransmit => true
  | _ => false

/-- The packets of a step. -/
def sentBetween (s s' : Server) : List (Option Addr × Packet) := s'.sent.drop s.sent.length

/-- A step that sends nothing on the connection of a peer, which stays. -/
structure SilentStep (p : Program) (peer : UInt32 × UInt16) (s : Server) (event : Event) (s' : Server) : Prop where
  step : Step p s event s'
  stays : peer ∈ peers s'.connections
  silent : ∀ entry ∈ sentBetween s s', sentTo peer entry = false

/-- The connection of a peer has an output handler, and segments that were not acknowledged. -/
def Waits (peer : UInt32 × UInt16) (s : Server) : Prop :=
  ∃ a c, ⟨a, .http c⟩ ∈ s.connections ∧ (c.ipAddr, c.port) = peer ∧ c.outputHandler.isSome ∧ 0 < c.inflight

/-- A connection with nothing in flight, whose unacknowledged segments are sent again. -/
def rolledBack (c : HttpConnection) : HttpConnection :=
  { c with nextOutseqno := c.nextOutseqno - c.inflight.toUInt32, inflight := 0 }

/-- A step rolls back the connection of a peer. -/
def RolledBack (peer : UInt32 × UInt16) (s s' : Server) : Prop :=
  ∃ a c, ⟨a, .http c⟩ ∈ s.connections ∧ (c.ipAddr, c.port) = peer ∧ ⟨a, .http (rolledBack c)⟩ ∈ s'.connections

--------------------------------------------------
-- The stamp of a peer
--------------------------------------------------

section Stamp

variable {ring : List Connection} {peer : UInt32 × UInt16} {time time' : UInt8} {s s' : Server}

theorem peerOf_stampOf {k : Connection} (stamp : stampOf k = some (peer, time)) : peerOf k = some peer := by
  obtain ⟨a, protocol⟩ := k
  cases protocol with
  | gpip g => cases stamp
  | http c =>
      cases stamp
      rfl

theorem mem_peers_of_stamps (mem : some (peer, time) ∈ stamps ring) : peer ∈ peers ring := by
  obtain ⟨k, mem, stamp⟩ := List.mem_map.mp mem
  exact List.mem_filterMap.mpr ⟨k, mem, peerOf_stampOf stamp⟩

theorem mem_stamps {a : Addr} {c : HttpConnection} (mem : ⟨a, .http c⟩ ∈ ring)
    : some ((c.ipAddr, c.port), c.transmissionTime) ∈ stamps ring :=
  List.mem_map.mpr ⟨⟨a, .http c⟩, mem, rfl⟩

theorem of_mem_stamps (mem : some (peer, time) ∈ stamps ring)
    : ∃ a c, ⟨a, .http c⟩ ∈ ring ∧ (c.ipAddr, c.port) = peer ∧ c.transmissionTime = time := by
  obtain ⟨⟨a, protocol⟩, own, stamp⟩ := List.mem_map.mp mem
  cases protocol with
  | gpip g => cases stamp
  | http c =>
      cases stamp
      exact ⟨a, c, own, rfl, rfl⟩

/-- A packet goes to one peer. -/
theorem sentTo_unique {peer' : UInt32 × UInt16} {entry : Option Addr × Packet} (own : sentTo peer entry)
    (own' : sentTo peer' entry)
    : peer = peer' := by
  unfold sentTo at own own'
  split at own
  · simp only [Bool.and_eq_true, decide_eq_true_eq] at own own'
    exact Prod.ext (own.1.symm.trans own'.1) (own.2.symm.trans own'.2)
  · cases own

/-- A peer has one stamp. -/
theorem stamp_unique (distinct : (peers ring).Nodup) (mem : some (peer, time) ∈ stamps ring)
    (mem' : some (peer, time') ∈ stamps ring)
    : time = time' := by
  obtain ⟨k, mem, stamp⟩ := List.mem_map.mp mem
  obtain ⟨k', mem', stamp'⟩ := List.mem_map.mp mem'
  have same := peer_unique distinct mem mem' (peerOf_stampOf stamp) (peerOf_stampOf stamp')
  rw [same, stamp'] at stamp
  cases stamp
  rfl

--------------------------------------------------
-- Steps
--------------------------------------------------

/-- The stamp of a peer after a call of `smews_send`: the one before if nothing was sent on its connection, and now
otherwise.
-/
theorem smewsSend_stamps (send : smewsSend p s = some s') (distinct : (peers s.connections).Nodup)
    (mem : some (peer, time) ∈ stamps s'.connections)
    : if (sentBetween s s').any (sentTo peer) then time = s.lastTransmissionTime
      else some (peer, time) ∈ stamps s.connections := by
  have call : Step p s .send s' := send
  have distinct' := step_peers call distinct
  have between {t : Server} {new : List (Option Addr × Packet)} (same : t.sent = s.sent) (sent : s'.sent = t.sent ++ new)
      : sentBetween s s' = new := by
    rw [sentBetween, sent, same, List.drop_left]
  cases smewsSend_sends send with
  | nothing _ _ same =>
      rw [between rfl (by rw [same]; exact (List.append_nil s.sent).symm)]
      exact same ▸ mem
  | reset _ same =>
      rw [between (t := s) rfl (by rw [same]; rfl)]
      subst same
      exact mem
  | gpip i before a g _ _ ring answered =>
      obtain ⟨handlers, -, sent⟩ := answered.sent
      rw [between rfl sent]
      refine (List.mem_map.mp mem).elim fun k own => List.mem_map.mpr ⟨k, ?_, own.2⟩
      rw [← (rotate_perm i s).mem_iff, ring]
      exact List.mem_append_left _ (answered.ring ▸ own.1)
  | http i before a c _ _ _ ring serves =>
      have rotated {x : Option ((UInt32 × UInt16) × UInt8)} (mem : x ∈ stamps (rotate i s).connections)
          : x ∈ stamps s.connections :=
        ((rotate_perm i s).map stampOf).mem_iff.mp mem
      rcases serves.stamped with stamped | ⟨packet, sent, reaches, ring'⟩
      · obtain ⟨-, new, sent, all, packets⟩ := stamped
        rw [between rfl sent]
        split
        · rename_i some_
          obtain ⟨entry, entry_mem, own⟩ := List.any_eq_true.mp some_
          obtain ⟨peer', reaches, now⟩ := packets entry entry_mem
          obtain rfl := sentTo_unique own reaches
          exact stamp_unique distinct' mem now
        · rename_i none_
          obtain ⟨n, lt, at_n⟩ := List.mem_iff_getElem.mp mem
          obtain ⟨length, each⟩ := List.forall₂_iff_get.mp all
          have pair := each n (length ▸ lt) lt
          rw [List.get_eq_getElem, List.get_eq_getElem, at_n] at pair
          refine rotated ?_
          rcases pair with same | ⟨_, _, -, own, entry, entry_mem, reaches⟩
          · rw [same]
            exact List.getElem_mem _
          · cases own
            exact absurd (List.any_eq_true.mpr ⟨entry, entry_mem, reaches⟩) none_
      · rw [between rfl sent, List.any_cons, List.any_nil, Bool.or_false]
        have rotated_distinct : (peers (before ++ [⟨a, .http c⟩])).Nodup := by
          rw [← ring]
          exact ((rotate_perm i s).filterMap peerOf).nodup_iff.mpr distinct
        have own_mem : (⟨a, .http c⟩ : Connection) ∈ before ++ [⟨a, .http c⟩] := by simp
        have before_mem (mem : some (peer, time) ∈ stamps before) : some (peer, time) ∈ stamps s.connections := by
          refine rotated ?_
          rw [ring, stamps, List.map_append]
          exact List.mem_append_left _ mem
        -- no other connection has the peer of the served one
        have other (mem : some (peer, time) ∈ stamps before) : peer ≠ (c.ipAddr, c.port) := by
          intro own
          have here := mem_peers_of_stamps mem
          rw [peers, List.filterMap_append] at rotated_distinct
          exact (List.nodup_append.mp rotated_distinct).2.2 peer here peer (by simp [peerOf, own]) rfl
        rcases ring' with ring' | ring' <;> rw [ring'] at mem
        · rw [if_neg (mt (reaches peer).mp (other mem))]
          exact before_mem mem
        · rw [List.mem_append, List.mem_singleton] at mem
          rcases mem with mem | own
          · rw [if_neg (mt (reaches peer).mp (other mem))]
            exact before_mem mem
          · cases own
            rw [if_pos ((reaches _).mpr rfl)]
            rfl

/-- What a segment leaves of a stamp. -/
theorem processed_time {seg : TcpSegment} {c c' : HttpConnection} {heap : Heap}
    (processed : Processed p seg c heap c')
    : c'.transmissionTime = c.transmissionTime := by
  have acked : (acknowledge c seg.ackno).1.transmissionTime = c.transmissionTime := by
    unfold acknowledge
    dsimp only
    split <;> split <;> rfl
  have cleared (d : HttpConnection) : (clearHandler p d).1.transmissionTime = d.transmissionTime := by
    unfold clearHandler
    split
    · dsimp only
      split <;> rfl
    · rfl
  have sequenced (d : HttpConnection) : (Input.sequence seg d).2.transmissionTime = d.transmissionTime := by
    unfold Input.sequence tcpTransition
    dsimp only
    repeat' split
    all_goals rfl
  have negotiated (d : HttpConnection) : (negotiate p seg d).transmissionTime = d.transmissionTime := by
    unfold negotiate
    dsimp only
    split <;> rfl
  have queued (d : HttpConnection) : (queueAck seg d).transmissionTime = d.transmissionTime := by
    unfold queueAck
    split <;> rfl
  have result : (received p seg c).transmissionTime = c.transmissionTime :=
    (negotiated _).trans ((sequenced _).trans ((cleared _).trans acked))
  cases processed with
  | plain _ same => rw [same, queued, result]
  | parsed o _ _ same =>
      rw [same, queued, ← result]
      unfold afterParsing beginResponse
      dsimp only
      repeat' split
      all_goals rfl

/-- A change of all HTTP connections that leaves their stamps. -/
theorem stamps_mapHttp {f : HttpConnection → HttpConnection}
    (same : ∀ c, ((f c).ipAddr, (f c).port) = (c.ipAddr, c.port) ∧ (f c).transmissionTime = c.transmissionTime)
    : stamps (mapHttp f s).connections = stamps s.connections := by
  rw [stamps, stamps, mapHttp, List.map_map]
  refine List.map_congr_left fun k _ => ?_
  obtain ⟨a, protocol⟩ := k
  cases protocol with
  | gpip g => rfl
  | http c => simp only [Function.comp_apply, stampOf, same]

/-- The stamp of a peer that has a connection changes only with a packet. -/
theorem step_stamps {event : Event} (step : Step p s event s') (distinct : (peers s.connections).Nodup)
    (connected : peer ∈ peers s.connections) (mem : some (peer, time) ∈ stamps s'.connections)
    (silent : ∀ entry ∈ sentBetween s s', sentTo peer entry = false)
    : some (peer, time) ∈ stamps s.connections := by
  have kept {a : Addr} {c : HttpConnection} (own : (c.ipAddr, c.port) = peer) (same : c.transmissionTime = time)
      (mem : ⟨a, .http c⟩ ∈ s.connections)
      : some (peer, time) ∈ stamps s.connections := by
    rw [← own, ← same]
    exact mem_stamps mem
  cases event with
  | send =>
      have stamp := smewsSend_stamps step distinct mem
      rwa [if_neg] at stamp
      rw [List.any_eq_true]
      rintro ⟨entry, entry_mem, reaches⟩
      rw [silent entry entry_mem] at reaches
      cases reaches
  | receive seg =>
      obtain ⟨a, c, mem, own, same⟩ := of_mem_stamps mem
      cases smewsReceive_receives step with
      | ignored ring => exact kept own same (ring ▸ mem)
      | stored i b d d' service _ at_i _ _ _ processed _ ring =>
          rw [ring] at mem
          rcases mem_setHttp at_i mem with old | ⟨rfl, rfl⟩
          · exact kept own same old
          · obtain ⟨ipAddr, port⟩ := Processed.peer processed
            refine kept (c := d) ?_ ?_ (List.mem_of_getElem? at_i)
            · rw [← own, ← ipAddr, ← port]
            · rw [← same, ← processed_time processed]
      | freed i b d at_i ring =>
          rw [ring, List.mem_append] at mem
          exact kept own same (mem.elim List.mem_of_mem_drop List.mem_of_mem_take)
      | added b d _ processed _ ring =>
          have absent := smewsReceive_absent step ring
          rw [ring, List.mem_append, List.mem_singleton] at mem
          rcases mem with old | eq
          · exact kept own same old
          · cases eq
            obtain ⟨ipAddr, port⟩ := Processed.peer processed
            rw [← own, ipAddr, port] at connected
            exact absurd connected absent
  | receiveGpIp srcAddr protocol payload =>
      obtain ⟨a, c, mem, own, same⟩ := of_mem_stamps mem
      exact kept own same (smewsReceiveGpIp_http step mem)
  | retransmit =>
      cases step
      rwa [smewsRetransmit, stamps_mapHttp fun c => ?_] at mem
      unfold rollBack
      split <;> exact ⟨rfl, rfl⟩
  | push handler =>
      cases step
      unfold serverPush at mem
      split at mem
      · rwa [stamps_mapHttp fun c => ?_] at mem
        split <;> exact ⟨rfl, rfl⟩
      · exact mem
  | packetOut protocol address =>
      obtain ⟨a, c, mem, own, same⟩ := of_mem_stamps mem
      cases step
      exact kept own same (requestPacketOutCall_http mem)

end Stamp

--------------------------------------------------
-- The counter
--------------------------------------------------

theorem addConnection_time (s : Server) (protocol : Protocol)
    : (s.addConnection p protocol).2.lastTransmissionTime = s.lastTransmissionTime := by
  unfold Server.addConnection
  split <;> rfl

theorem commit_time {seg : TcpSegment} {i : Option Nat} {d : Pending} {s s' : Server}
    (step : commit p seg i d s = some s')
    : s'.lastTransmissionTime = s.lastTransmissionTime := by
  unfold commit at step
  rw [Option.bind_eq_bind, Option.bind_eq_some_iff] at step
  obtain ⟨⟨c, s1⟩, service, rest⟩ := step
  have first : s1.lastTransmissionTime = s.lastTransmissionTime := by
    unfold commitService at service
    split at service
    · split at service
      · dsimp only at service
        split at service
        · rw [← (Prod.mk.inj (Option.some.inj service)).2]
          rfl
        · simp only [Option.bind_eq_bind, Option.bind_eq_some_iff, Option.some.injEq, Prod.mk.injEq] at service
          obtain ⟨heap, -, -, rfl⟩ := service
          rfl
      · rw [← (Prod.mk.inj (Option.some.inj service)).2]
    · rw [← (Prod.mk.inj (Option.some.inj service)).2]
  rw [← first]
  dsimp only at rest
  split at rest
  · split at rest
    · exact freeConnection_time rest
    · rw [← Option.some.inj rest]
      rfl
  · split at rest
    · have added := addConnection_time (p := p) s1 (.http c)
      split at rest <;> rename_i eq <;> rw [eq] at added <;> rw [← Option.some.inj rest] <;> exact added
    · rw [← Option.some.inj rest]

theorem smewsReceive_time {seg : TcpSegment} {s s' : Server} (step : smewsReceive p seg s = some s')
    : s'.lastTransmissionTime = s.lastTransmissionTime := by
  unfold smewsReceive at step
  split at step
  · rw [Option.bind_eq_bind, Option.bind_eq_some_iff] at step
    obtain ⟨outcome, -, rest⟩ := step
    cases outcome with
    | inr heap => rw [← Option.some.inj rest]
    | inl d =>
        dsimp only at rest
        split at rest
        · exact (commit_time rest).trans rfl
        · rw [← Option.some.inj rest]
  · rw [Option.some.inj step]

/-- Only the timer moves the counter. -/
theorem step_time {event : Event} {s s' : Server} (step : Step p s event s')
    : s'.lastTransmissionTime = s.lastTransmissionTime + if event.isRetransmit then 1 else 0 := by
  cases event with
  | retransmit =>
      cases step
      rfl
  | receive seg => exact (smewsReceive_time step).trans (UInt8.add_zero _).symm
  | receiveGpIp srcAddr protocol payload =>
      refine Eq.trans ?_ (UInt8.add_zero _).symm
      cases smewsReceiveGpIp_receives step with
      | unknown _ same | exhausted _ _ same | dropped _ _ _ _ _ _ _ _ same
      | accepted _ _ _ _ _ _ _ _ _ _ same => rw [same]
  | send => exact (smewsSend_time step).trans (UInt8.add_zero _).symm
  | push handler =>
      cases step
      refine Eq.trans ?_ (UInt8.add_zero _).symm
      unfold serverPush
      split <;> rfl
  | packetOut protocol address =>
      cases step
      refine Eq.trans ?_ (UInt8.add_zero _).symm
      unfold requestPacketOutCall
      split
      · rfl
      · exact addConnection_time _ _

--------------------------------------------------
-- The age of a transmission
--------------------------------------------------

/-- The connection of a peer transmitted when the counter was `t`, a number of ticks ago. -/
structure Aged (peer : UInt32 × UInt16) (t : UInt8) (ticks : Nat) (s : Server) : Prop where
  distinct : (peers s.connections).Nodup
  connected : peer ∈ peers s.connections
  counter : s.lastTransmissionTime = t + UInt8.ofNat ticks
  stamp : ∀ time, some (peer, time) ∈ stamps s.connections → time = t

section Aged

variable {peer : UInt32 × UInt16} {t : UInt8} {ticks : Nat} {s s' : Server}

theorem SilentStep.aged {event : Event} (silent : SilentStep p peer s event s') (aged : Aged peer t ticks s)
    : Aged peer t (ticks + if event.isRetransmit then 1 else 0) s' := by
  obtain ⟨distinct, connected, counter, stamp⟩ := aged
  refine ⟨step_peers silent.step distinct, silent.stays, ?_, fun time mem => ?_⟩
  · rw [step_time silent.step, counter]
    split
    · rw [UInt8.ofNat_add, UInt8.add_assoc]
      rfl
    · rw [UInt8.add_zero, Nat.add_zero]
  · exact stamp time (step_stamps silent.step distinct connected mem silent.silent)

/-- The age in a run, by induction on the run. -/
theorem Aged.run {events : List Event} (aged : Aged peer t 0 s) (run : Run (SilentStep p peer) s events s')
    : Aged peer t (events.countP Event.isRetransmit) s' := by
  refine run.invariant_history (fun past s => Aged peer t (past.countP Event.isRetransmit) s) ?_ aged
  intro past s event s' before step
  have after := step.aged before
  rw [List.countP_append, List.countP_singleton]
  exact after

/-- The connection of a peer just transmitted. -/
theorem Aged.transmitted {entry : Option Addr × Packet} (distinct : (peers s.connections).Nodup)
    (send : Step p s .send s') (mem : entry ∈ sentBetween s s') (own : sentTo peer entry)
    (stays : peer ∈ peers s'.connections)
    : Aged peer s'.lastTransmissionTime 0 s' := by
  refine ⟨step_peers send distinct, stays, (UInt8.add_zero _).symm, fun time stamp => ?_⟩
  have now := smewsSend_stamps send distinct stamp
  rw [if_pos (List.any_eq_true.mpr ⟨entry, mem, own⟩)] at now
  exact now.trans (smewsSend_time send).symm

/-- The comparison of two counters of 8 bits as integers, at a tick. -/
theorem old_iff (t : UInt8) (ticks : Nat)
    : 4 < ((t + UInt8.ofNat ticks + 1).toNat : Int) - t.toNat
      ↔ 5 ≤ (ticks + 1) % 256 ∧ t.toNat + (ticks + 1) % 256 < 256 := by
  have below := t.toNat_lt
  have now : (t + UInt8.ofNat ticks + 1).toNat = (t.toNat + (ticks + 1)) % 256 := by
    rw [UInt8.toNat_add, UInt8.toNat_add, UInt8.toNat_ofNat']
    simp only [UInt8.reduceToNat]
    omega
  rw [now]
  omega

/-- A tick rolls back a connection whose last transmission is old for the comparison, and no other one. -/
theorem Aged.rolledBack_iff (aged : Aged peer t ticks s) (waits : Waits peer s) (tick : Step p s .retransmit s')
    : RolledBack peer s s' ↔ 5 ≤ (ticks + 1) % 256 ∧ t.toNat + (ticks + 1) % 256 < 256 := by
  obtain ⟨a, c, mem, own, handler, inflight⟩ := waits
  have time := aged.stamp c.transmissionTime (own ▸ mem_stamps mem)
  have one {b : Addr} {d : HttpConnection} (other : ⟨b, .http d⟩ ∈ s.connections) (same : (d.ipAddr, d.port) = peer)
      : d = c := by
    have eq := peer_unique aged.distinct other mem (congrArg some same) (congrArg some own)
    exact Protocol.http.inj (Connection.mk.inj eq).2
  cases tick
  have condition : (c.outputHandler.isSome ∧ 4 < ((s.lastTransmissionTime + 1).toNat : Int) - c.transmissionTime.toNat
      ∧ 0 < c.inflight) ↔ 5 ≤ (ticks + 1) % 256 ∧ t.toNat + (ticks + 1) % 256 < 256 := by
    rw [time, aged.counter, old_iff]
    exact ⟨fun all => all.2.1, fun old => ⟨handler, old, inflight⟩⟩
  rw [← condition]
  constructor
  · rintro ⟨b, d, other, same, after⟩
    obtain rfl := one other same
    obtain ⟨e, before, eq⟩ := mem_mapHttp.mp after
    by_contra young
    unfold rollBack at eq
    split at eq
    · rename_i old
      obtain rfl := one before ((congrArg (fun c => (c.ipAddr, c.port)) eq).symm.trans same)
      exact young old
    · obtain rfl := one before ((congrArg (fun c => (c.ipAddr, c.port)) eq).symm.trans same)
      rw [← eq] at inflight
      exact absurd inflight (UInt16.lt_irrefl 0)
  · intro old
    exact ⟨a, c, mem, own, mem_mapHttp.mpr ⟨c, mem, (if_pos old).symm⟩⟩

end Aged

/-- In every run, a tick rolls back a connection that has an output handler and unacknowledged segments exactly when
the number of ticks since its last transmission is at least 5 modulo 256, and the counter did not wrap in the rest.
-/
theorem rolled_back_iff {start before transmitted s s' : Server} {earlier events : List Event}
    {peer : UInt32 × UInt16} {entry : Option Addr × Packet} (initial : Initial start)
    (past : Run (Step p) start earlier before) (send : Step p before .send transmitted)
    (mem : entry ∈ sentBetween before transmitted) (own : sentTo peer entry)
    (stays : peer ∈ peers transmitted.connections) (silent : Run (SilentStep p peer) transmitted events s)
    (waits : Waits peer s) (tick : Step p s .retransmit s')
    : let ticks := events.countP Event.isRetransmit + 1
      RolledBack peer s s' ↔ 5 ≤ ticks % 256 ∧ transmitted.lastTransmissionTime.toNat + ticks % 256 < 256 := by
  have distinct : (peers before.connections).Nodup :=
    past.invariant (fun s => (peers s.connections).Nodup) (fun inv step => step_peers step inv)
      (by rw [initial.connections]; exact List.nodup_nil)
  exact ((Aged.transmitted distinct send mem own stays).run silent).rolledBack_iff waits tick

--------------------------------------------------
-- One client
--------------------------------------------------

instance (peer : UInt32 × UInt16) (s : Server) : Decidable (Waits peer s) :=
  decidable_of_iff (s.connections.any fun k => match k.protocol with
    | .http c => (c.ipAddr, c.port) = peer && c.outputHandler.isSome && 0 < c.inflight
    | .gpip _ => false) <| by
    rw [List.any_eq_true]
    constructor
    · rintro ⟨⟨a, protocol⟩, mem, waits⟩
      cases protocol with
      | gpip g => cases waits
      | http c =>
          simp only [Bool.and_eq_true, decide_eq_true_eq] at waits
          exact ⟨a, c, mem, waits.1.1, waits.1.2, waits.2⟩
    · rintro ⟨a, c, mem, own, handler, inflight⟩
      exact ⟨_, mem, by simp [own, handler, inflight]⟩

/-- Whether an event sends nothing on the connection of a peer, which waits and stays. -/
def WaitsThrough (p : Program) (peer : UInt32 × UInt16) (s : Server) (event : Event) : Prop :=
  Waits peer s ∧ ∀ s' ∈ next p s event, peer ∈ peers s'.connections
    ∧ ∀ entry ∈ sentBetween s s', sentTo peer entry = false

instance (peer : UInt32 × UInt16) (s : Server) (event : Event) : Decidable (WaitsThrough p peer s event) :=
  inferInstanceAs (Decidable (_ ∧ _))

theorem WaitsThrough.silent {peer : UInt32 × UInt16} {s s' : Server} {event : Event}
    (step : next p s event = some s' ∧ WaitsThrough p peer s event)
    : SilentStep p peer s event s' ∧ Waits peer s := by
  obtain ⟨step, waits, after⟩ := step
  obtain ⟨stays, silent⟩ := after s' step
  exact ⟨⟨step, stays, silent⟩, waits⟩

/-- A number of ticks. -/
def ticks (n : Nat) : List Event := List.replicate n .retransmit

/-- A response that was sent when the counter was 251 is not rolled back at the fifth tick. -/
theorem not_rolled_back_wrapping
    : ∃ before transmitted entry s s',
        Run (Step (oneGenerator hello noArgs)) bootServer (ticks 250 ++ requestOf 1000) before
        ∧ Step (oneGenerator hello noArgs) before .send transmitted
        ∧ entry ∈ sentBetween before transmitted ∧ sentTo (0xc0a80105, 4000) entry
        ∧ Run (fun s event s' => SilentStep (oneGenerator hello noArgs) (0xc0a80105, 4000) s event s'
            ∧ Waits (0xc0a80105, 4000) s) transmitted (ticks 4) s
        ∧ Waits (0xc0a80105, 4000) s ∧ Step (oneGenerator hello noArgs) s .retransmit s'
        ∧ ¬ RolledBack (0xc0a80105, 4000) s s' := by
  have checked : ((runChecked (next (oneGenerator hello noArgs)) (fun _ _ => True)
      (ticks 250 ++ requestOf 1000) bootServer).bind fun before =>
        (next (oneGenerator hello noArgs) before .send).bind fun transmitted =>
          (sentBetween before transmitted).head?.bind fun entry =>
            (runChecked (next (oneGenerator hello noArgs))
              (WaitsThrough (oneGenerator hello noArgs) (0xc0a80105, 4000)) (ticks 4) transmitted).map fun s =>
                (sentTo (0xc0a80105, 4000) entry, decide (Waits (0xc0a80105, 4000) s),
                  (smewsRetransmit s).connections.all fun k => match k.protocol with
                    | .http c => c.inflight != 0
                    | .gpip _ => true))
      = some (true, true, true) := by
    decide +kernel
  simp only [Option.bind_eq_some_iff, Option.map_eq_some_iff, Prod.mk.injEq, decide_eq_true_eq] at checked
  obtain ⟨before, past, transmitted, send, entry, first, s, run, own, waits, kept⟩ := checked
  refine ⟨before, transmitted, entry, s, smewsRetransmit s, (Run.of_checked past).mono And.left, send,
    List.mem_of_mem_head? first, own, (Run.of_checked run).mono WaitsThrough.silent, waits, rfl, ?_⟩
  rintro ⟨a, c, -, -, mem⟩
  exact absurd (List.all_eq_true.mp kept _ mem) (by simp [rolledBack])

/-- A response that was sent when the counter was 1 is rolled back at the fifth tick. -/
theorem rolled_back_iff_fifth
    : ∃ s s', RolledBack (0xc0a80105, 4000) s s' := by
  have checked : ((runChecked (next (oneGenerator hello noArgs)) (fun _ _ => True) (requestOf 1000) bootServer).bind
      fun before => (next (oneGenerator hello noArgs) before .send).bind fun transmitted =>
        (sentBetween before transmitted).head?.bind fun entry =>
          (runChecked (next (oneGenerator hello noArgs))
            (WaitsThrough (oneGenerator hello noArgs) (0xc0a80105, 4000)) (ticks 4) transmitted).map fun s =>
              (sentTo (0xc0a80105, 4000) entry, decide ((0xc0a80105, 4000) ∈ peers transmitted.connections),
                decide (Waits (0xc0a80105, 4000) s), transmitted.lastTransmissionTime))
      = some (true, true, true, 1) := by
    decide +kernel
  simp only [Option.bind_eq_some_iff, Option.map_eq_some_iff, Prod.mk.injEq, decide_eq_true_eq] at checked
  obtain ⟨before, past, transmitted, send, entry, first, s, run, own, stays, waits, time⟩ := checked
  refine ⟨s, smewsRetransmit s, (rolled_back_iff bootServer_initial ((Run.of_checked past).mono And.left) send
    (List.mem_of_mem_head? first) own stays
    ((Run.of_checked run).mono fun step => (WaitsThrough.silent step).1) waits rfl).mpr ?_⟩
  rw [time]
  decide

end Smews.System
