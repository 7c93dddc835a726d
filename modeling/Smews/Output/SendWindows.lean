import Smews.Output.Multicast

/-! What a call of `smews_send` does to `next_outseqno` and `inflight` of the connections: both grow by the payload of
the packet that a connection is sent.
-/

namespace Smews.Output

open Smews.Core

variable {p : Program}

--------------------------------------------------
-- Windows
--------------------------------------------------

/-- The packets that were sent on a connection. -/
def sentOn (a : Addr) (new : List (Option Addr × Packet)) : List Packet :=
  (new.filter fun entry => entry.1 = some a).map Prod.snd

/-- The window of a connection before and after packets were sent on it. -/
inductive Moves (packets : List Packet) (c c' : HttpConnection) : Prop
  | still (nothing : packets = []) (next : c'.nextOutseqno = c.nextOutseqno) (inflight : c'.inflight = c.inflight)
  | sent (destination : UInt32) (port : UInt16) (ackno : UInt32) (flags : UInt8) (options payload : List UInt8)
    (packet : packets = [⟨destination, .tcp port c.nextOutseqno ackno flags options payload⟩])
    (next : c'.nextOutseqno = c.nextOutseqno + UInt32.ofNat payload.length)
    (inflight : c'.inflight = c.inflight + UInt16.ofNat payload.length)

/-- A connection before and after a call of `smews_send`: its handler stays, or was a control packet that is sent. The
number of a `SYN` is not counted in `inflight`.
-/
structure SentBy (packets : List Packet) (c c' : HttpConnection) : Prop where
  outputHandler : c'.outputHandler = c.outputHandler ∨ c'.outputHandler = none
  moves : c.outputHandler ≠ some .synack → Moves packets c c'

/-- What of a connection belongs to its window. -/
def spanOf (k : Connection) : Addr × Option (UInt32 × UInt16 × Option HandlerRef) :=
  match k.protocol with
  | .http c => (k.addr, some (c.nextOutseqno, c.inflight, c.outputHandler))
  | .gpip _ => (k.addr, none)

/-- The rings before and after a call, with the packets of the call. -/
structure WindowsMoved (s s' : Server) : Prop where
  names : s'.connections.map Connection.addr = s.connections.map Connection.addr
  moved : ∃ new, s'.sent = s.sent ++ new
    ∧ ∀ a c', ⟨a, .http c'⟩ ∈ s'.connections → ∃ c, ⟨a, .http c⟩ ∈ s.connections
      ∧ c'.outputHandler = c.outputHandler ∧ Moves (sentOn a new) c c'

--------------------------------------------------
-- Names
--------------------------------------------------

section Windows

variable {s s' s'' t : Server} {ring : List Connection} {a b : Addr} {c c' : HttpConnection} {h : HandlerRef}

theorem name_unique (distinct : (ring.map Connection.addr).Nodup) {k k' : Connection} (mem : k ∈ ring) (mem' : k' ∈ ring)
    (same : k.addr = k'.addr)
    : k = k' :=
  List.inj_on_of_nodup_map distinct mem mem' same

/-- A connection with the same window in another ring. -/
theorem of_spans {ring' : List Connection} (same : ring'.map spanOf = ring.map spanOf) (mem : ⟨a, .http c'⟩ ∈ ring')
    : ∃ c, ⟨a, .http c⟩ ∈ ring ∧ c'.outputHandler = c.outputHandler ∧ c'.nextOutseqno = c.nextOutseqno
      ∧ c'.inflight = c.inflight := by
  have seen : spanOf ⟨a, .http c'⟩ ∈ ring.map spanOf := same ▸ List.mem_map_of_mem mem
  obtain ⟨⟨b, protocol⟩, inside, eq⟩ := List.mem_map.mp seen
  cases protocol with
  | gpip g => cases eq
  | http c =>
      simp only [spanOf, Prod.mk.injEq, Option.some.injEq] at eq
      obtain ⟨rfl, next, inflight, handler⟩ := eq
      exact ⟨c, inside, handler.symm, next.symm, inflight.symm⟩

theorem names_of_spans {ring' : List Connection} (same : ring'.map spanOf = ring.map spanOf)
    : ring'.map Connection.addr = ring.map Connection.addr := by
  have first : Prod.fst ∘ spanOf = Connection.addr := by
    funext k
    obtain ⟨a, protocol⟩ := k
    cases protocol <;> rfl
  have names := congrArg (List.map Prod.fst) same
  rwa [List.map_map, List.map_map, first] at names

/-- Nothing is sent, and the windows stay. -/
theorem WindowsMoved.of_spans (same : s'.connections.map spanOf = s.connections.map spanOf) (sent : s'.sent = s.sent)
    : WindowsMoved s s' := by
  refine ⟨names_of_spans same, [], by rw [sent, List.append_nil], fun a c' mem => ?_⟩
  obtain ⟨c, mem, handler, next, inflight⟩ := Output.of_spans same mem
  exact ⟨c, mem, handler, .still rfl next inflight⟩

/-- Before the emission the windows stay. -/
theorem WindowsMoved.after (moved : WindowsMoved s' s'') (same : s'.connections.map spanOf = s.connections.map spanOf)
    (sent : s'.sent = s.sent)
    : WindowsMoved s s'' := by
  obtain ⟨names, new, sent', each⟩ := moved
  refine ⟨names.trans (names_of_spans same), new, by rw [sent', sent], fun a c'' mem => ?_⟩
  obtain ⟨c', mem', handler', moves⟩ := each a c'' mem
  obtain ⟨c, mem, handler, next, inflight⟩ := Output.of_spans same mem'
  refine ⟨c, mem, handler'.trans handler, ?_⟩
  cases moves with
  | still nothing next' inflight' => exact .still nothing (next'.trans next) (inflight'.trans inflight)
  | sent destination port ackno flags options payload packet next' inflight' =>
      exact .sent destination port ackno flags options payload (by rw [packet, next]) (by rw [next', next])
        (by rw [inflight', inflight])

/-- Nor do they change behind it. -/
theorem WindowsMoved.before (moved : WindowsMoved s s') (same : s''.connections.map spanOf = s'.connections.map spanOf)
    (sent : s''.sent = s'.sent)
    : WindowsMoved s s'' := by
  obtain ⟨names, new, sent', each⟩ := moved
  refine ⟨(names_of_spans same).trans names, new, by rw [sent, sent'], fun a c'' mem => ?_⟩
  obtain ⟨c', mem', handler', next', inflight'⟩ := Output.of_spans same mem
  obtain ⟨c, mem, handler, moves⟩ := each a c' mem'
  refine ⟨c, mem, handler'.trans handler, ?_⟩
  cases moves with
  | still nothing next inflight => exact .still nothing (next'.trans next) (inflight'.trans inflight)
  | sent destination port ackno flags options payload packet next inflight =>
      exact .sent destination port ackno flags options payload packet (next'.trans next) (inflight'.trans inflight)

theorem sentOn_single (packet : Packet) : sentOn a [(some a, packet)] = [packet] := by simp [sentOn]

theorem sentOn_other (packet : Packet) (other : b ≠ a) : sentOn a [(some b, packet)] = [] := by simp [sentOn, other]

/-- The packets for the connections of a ring, each one with the name of its own. -/
theorem sentOn_flatMap {packets : Connection → List (Option Addr × Packet)}
    (own : ∀ k, ∀ entry ∈ packets k, entry.1 = some k.addr) (distinct : (ring.map Connection.addr).Nodup)
    {k : Connection} (mem : k ∈ ring)
    : sentOn k.addr (ring.flatMap packets) = (packets k).map Prod.snd := by
  have apart (k' : Connection) (other : k'.addr ≠ k.addr)
      : (packets k').filter (fun entry => entry.1 = some k.addr) = [] := by
    refine List.filter_eq_nil_iff.mpr fun entry mem => ?_
    rw [own k' entry mem]
    simpa using other
  have whole : (packets k).filter (fun entry => entry.1 = some k.addr) = packets k := by
    refine List.filter_eq_self.mpr fun entry mem => ?_
    rw [own k entry mem]
    simp
  have filtered : (ring.flatMap packets).filter (fun entry => entry.1 = some k.addr) = packets k := by
    induction ring with
    | nil => exact absurd mem List.not_mem_nil
    | cons x ring ih =>
        rw [List.map_cons, List.nodup_cons] at distinct
        rw [List.flatMap_cons, List.filter_append]
        rcases List.mem_cons.mp mem with rfl | mem
        · have rest : (ring.flatMap packets).filter (fun entry => entry.1 = some k.addr) = [] := by
            refine List.filter_eq_nil_iff.mpr fun entry inside => ?_
            obtain ⟨k', mem', inside⟩ := List.mem_flatMap.mp inside
            rw [own k' entry inside]
            have other : k'.addr ≠ k.addr := fun same => distinct.1 (same ▸ List.mem_map_of_mem mem')
            simpa using other
          rw [whole, rest, List.append_nil]
        · have other : x.addr ≠ k.addr := fun same => distinct.1 (same ▸ List.mem_map_of_mem mem)
          rw [apart x other, ih distinct.2 mem, List.nil_append]
  rw [sentOn, filtered]

--------------------------------------------------
-- The emission
--------------------------------------------------

theorem spanOf_advance (syn : isSyn p h = false) (length : Nat)
    : (advance p s c h length).nextOutseqno = c.nextOutseqno + UInt32.ofNat length
      ∧ (advance p s c h length).inflight = c.inflight + UInt16.ofNat length
      ∧ (advance p s c h length).outputHandler = c.outputHandler := by
  unfold advance
  rw [syn, if_neg Bool.false_ne_true]
  dsimp only
  split
  · split <;> exact ⟨rfl, rfl, rfl⟩
  · exact ⟨rfl, rfl, rfl⟩

/-- Only the `SYN` and `ACK` of the handshake has this flag. -/
theorem isSyn_false (other : h ≠ .synack) : isSyn p h = false := by
  cases h with
  | synack => exact absurd rfl other
  | resource n =>
      have resource := p.resource_ne_control n
      cases data : (p.resource n).data with
      | control length flags => exact absurd data (resource length flags)
      | _ =>
          simp only [isSyn, getFlags, Program.handler, data]
          decide
  | _ =>
      simp only [isSyn, getFlags, Program.handler, refAck, refFinack, refRst, OutputHandler.plain]
      decide

theorem generator_ne_synack {resource : DynamicResource} (generator : (p.handler h).data = .generator resource)
    : h ≠ .synack := by
  rintro rfl
  cases generator

/-- A segment for the connection at a position. -/
theorem sendPacket_windows {i : Nat} {resource : DynamicResource} (send : sendPacket p i s = some s')
    (generator : (p.handler h).data = .generator resource) (distinct : (s.connections.map Connection.addr).Nodup)
    (at_i : s.connections[i]? = some ⟨b, .http c⟩) (handler : c.outputHandler = some h)
    : WindowsMoved s s' := by
  have result := sendPacket_generator send generator at_i handler
  obtain ⟨next, inflight, kept⟩ :=
    spanOf_advance (p := p) (s := s) (c := c) (isSyn_false (generator_ne_synack generator)) (currPayload s).length
  have names : s'.connections.map Connection.addr = s.connections.map Connection.addr := by
    rw [result]
    exact map_setHttp Connection.addr (show s.http i = some c by simp [Server.http, at_i]) fun _ => rfl
  refine ⟨names, [(some b, packetFor p c h (currPayload s))], by rw [result], fun a c' mem => ?_⟩
  have stored : (⟨b, .http (emitted p s h c)⟩ : Connection) ∈ s'.connections := by
    rw [result]
    exact List.mem_of_getElem? (i := i) (by simp [Server.setHttp, at_i])
  by_cases own : a = b
  · subst own
    have same := name_unique (names ▸ distinct) mem stored rfl
    simp only [Connection.mk.injEq, Protocol.http.injEq, true_and] at same
    subst same
    refine ⟨c, List.mem_of_getElem? at_i, kept, ?_⟩
    rw [sentOn_single]
    exact .sent _ _ _ _ _ (currPayload s) rfl next inflight
  · have old : (⟨a, .http c'⟩ : Connection) ∈ s.connections := by
      rw [result] at mem
      obtain ⟨j, at_j⟩ := List.mem_iff_getElem?.mp mem
      simp only [Server.setHttp, List.getElem?_modify] at at_j
      by_cases hj : i = j
      · subst hj
        simp only [at_i, if_pos, Option.map_eq_map, Option.map_some, Option.some.injEq, Connection.mk.injEq] at at_j
        exact absurd at_j.1.symm own
      · simp only [if_neg hj, Option.map_eq_map, Option.map_id'] at at_j
        exact List.mem_of_getElem? at_j
    refine ⟨c', old, rfl, ?_⟩
    rw [sentOn_other _ (Ne.symm own)]
    exact .still rfl rfl rfl

/-- A segment of a comet handler for one listener. -/
theorem afterMulticast_windows {resource : DynamicResource} {ended : Bool} {k : Connection}
    (generator : (p.handler h).data = .generator resource) (after : afterMulticast p s h ended k = ⟨a, .http c'⟩)
    : ∃ c, k = ⟨a, .http c⟩ ∧ c'.outputHandler = c.outputHandler
      ∧ Moves ((multicastPackets p s h k).map Prod.snd) c c' := by
  obtain ⟨b, protocol⟩ := k
  cases protocol with
  | gpip g => cases after
  | http c =>
      obtain ⟨next, inflight, kept⟩ :=
        spanOf_advance (p := p) (s := s) (c := c) (isSyn_false (generator_ne_synack generator)) (currPayload s).length
      rw [afterMulticast] at after
      rw [multicastPackets]
      by_cases listens : listensNow p h ⟨b, .http c⟩
      swap
      · simp only [listens, Bool.false_eq_true, if_false, Connection.mk.injEq, Protocol.http.injEq] at after
        obtain ⟨rfl, rfl⟩ := after
        refine ⟨c, rfl, rfl, ?_⟩
        simp only [listens, Bool.false_and, Bool.false_eq_true, if_false]
        exact .still rfl rfl rfl
      · simp only [listens, if_true, Connection.mk.injEq, Protocol.http.injEq] at after
        obtain ⟨rfl, rfl⟩ := after
        refine ⟨c, rfl, ?_, ?_⟩
        · split <;> split <;> first | rfl | exact kept
        · simp only [listens, Bool.true_and]
          by_cases segment : hasSegment p s h
          · simp only [segment, if_true, List.map_cons, List.map_nil]
            refine .sent _ _ _ _ _ (currPayload s) rfl ?_ ?_
            · split <;> exact next
            · split <;> exact inflight
          · simp only [segment, Bool.false_eq_true, if_false, List.map_nil]
            refine .still rfl ?_ ?_ <;> split <;> rfl

theorem emit_windows {i : Nat} {resource : DynamicResource} {ended : Bool} (send : emit p i h ended s = some s')
    (generator : (p.handler h).data = .generator resource) (distinct : (s.connections.map Connection.addr).Nodup)
    (at_i : s.connections[i]? = some ⟨b, .http c⟩) (handler : c.outputHandler = some h)
    : WindowsMoved s s' := by
  by_cases comet : (p.handler h).handlerComet
  swap
  · rw [emit, if_neg comet] at send
    exact sendPacket_windows send generator distinct at_i handler
  obtain ⟨-, ring, sent⟩ := emit_comet send generator comet
  have named (k : Connection) : (afterMulticast p s h ended k).addr = k.addr := by
    obtain ⟨a, protocol⟩ := k
    cases protocol with
    | gpip g => rfl
    | http c =>
        unfold afterMulticast
        dsimp only
        split <;> rfl
  have own (k : Connection) : ∀ entry ∈ multicastPackets p s h k, entry.1 = some k.addr := by
    intro entry mem
    unfold multicastPackets at mem
    split at mem
    · split at mem
      · rw [List.mem_singleton] at mem
        rw [mem]
      · exact absurd mem List.not_mem_nil
    · exact absurd mem List.not_mem_nil
  refine ⟨?_, _, sent, fun a c' mem => ?_⟩
  · rw [ring, List.map_map]
    exact List.map_congr_left fun k _ => named k
  · rw [ring] at mem
    obtain ⟨k, mem, after⟩ := List.mem_map.mp mem
    obtain ⟨c, rfl, handler, moves⟩ := afterMulticast_windows generator after
    exact ⟨c, mem, handler, sentOn_flatMap own distinct mem ▸ moves⟩

--------------------------------------------------
-- One call
--------------------------------------------------

theorem openService_spans {i : Nat} (resource : DynamicResource) (here : s.http i = some c)
    : (openService p i c h resource s).2.connections.map spanOf = s.connections.map spanOf
      ∧ (openService p i c h resource s).2.sent = s.sent := by
  unfold openService createService initService
  dsimp only
  split
  · exact ⟨rfl, rfl⟩
  · split
    · exact ⟨rfl, rfl⟩
    · rename_i a heap _
      have stored (streaming : Bool)
          : (s.setHttp i { c with
              generatorService := some a
              finalOutseqno := c.nextOutseqno - 1
              cometStreaming := streaming }).connections.map spanOf = s.connections.map spanOf :=
        map_setHttp spanOf here fun _ => rfl
      dsimp only
      split
      · exact ⟨(map_markPassive spanOf i h _ fun _ _ _ => rfl).trans (stored _), rfl⟩
      · exact ⟨stored _, rfl⟩

theorem concludeSegment_spans {i : Nat} {retransmitting ended : Bool}
    (step : concludeSegment p i a h retransmitting ended s = some s')
    : s'.connections.map spanOf = s.connections.map spanOf ∧ s'.sent = s.sent := by
  cases here : s.http i with
  | some c =>
      obtain ⟨sent, service, ring⟩ := concludeSegment_ring step here
      exact ⟨by rw [ring]; exact map_setHttp spanOf here fun _ => rfl, sent⟩
  | none =>
      unfold concludeSegment at step
      rw [Option.bind_eq_bind, Option.bind_eq_some_iff] at step
      obtain ⟨c, here', -⟩ := step
      have some_ : s.http i = some c := by
        split at here' <;> exact here'
      rw [here] at some_
      cases some_

/-- A segment of a generator for the last connection of the ring. -/
theorem sendGenerator_windows {before : List Connection} {resource : DynamicResource}
    (send : sendGenerator p before.length h resource s = some s') (ring : s.connections = before ++ [⟨b, .http c⟩])
    (generator : (p.handler h).data = .generator resource) (distinct : (s.connections.map Connection.addr).Nodup)
    (handler : c.outputHandler = some h)
    : WindowsMoved s s' := by
  have here : s.http before.length = some c := by simp [Server.http, ring]
  rw [sendGenerator_eq here] at send
  obtain ⟨opened, sent⟩ := openService_spans (p := p) (h := h) resource here
  generalize openService p before.length c h resource s = service at send opened sent
  obtain ⟨a, t⟩ := service
  cases a with
  | none =>
      cases send
      exact .of_spans opened sent
  | some a =>
      dsimp only at send opened sent
      refine WindowsMoved.after ?_ opened sent
      obtain ⟨k, at_last⟩ : ∃ k, t.connections[before.length]? = some k := by
        have length := congrArg List.length opened
        rw [List.length_map, List.length_map, ring, List.length_append, List.length_singleton] at length
        exact ⟨_, List.getElem?_eq_getElem (by omega)⟩
      have span : spanOf k = spanOf ⟨b, .http c⟩ := by
        have seen := congrArg (·[before.length]?) opened
        simpa [at_last, ring] using seen
      obtain ⟨b', protocol⟩ := k
      cases protocol with
      | gpip g => cases span
      | http d =>
          simp only [spanOf, Prod.mk.injEq, Option.some.injEq] at span
          obtain ⟨rfl, -, -, handler'⟩ := span
          have here' : t.http before.length = some d := by simp [Server.http, at_last]
          rw [sendService_eq here', Option.bind_eq_some_iff] at send
          obtain ⟨progress, prepared, rest⟩ := send
          obtain ⟨request, -, ring', sent'⟩ := prepareSegment_ring prepared here'
          have same : progress.state.connections.map spanOf = t.connections.map spanOf := by
            rw [ring']
            exact map_setHttp spanOf here' fun _ => rfl
          cases progress with
          | stop u =>
              cases rest
              exact .of_spans same sent'
          | go ended u =>
              dsimp only [Progress.state] at rest ring' sent' same
              rw [Option.bind_eq_some_iff] at rest
              obtain ⟨v, emits, concluded⟩ := rest
              have at_last' : u.connections[before.length]? = some ⟨b', .http { d with request }⟩ := by
                rw [ring', Server.setHttp, List.getElem?_modify]
                simp [at_last]
              have names : (u.connections.map Connection.addr).Nodup := by
                rw [names_of_spans same, names_of_spans opened]
                exact distinct
              have emitted := emit_windows emits generator names at_last' (handler'.trans handler)
              obtain ⟨concluded, sent''⟩ := concludeSegment_spans concluded
              exact (emitted.before concluded sent'').after same sent'

/-- A control packet carries no payload. -/
theorem afterControl_window (old : Option HandlerRef) (h : HandlerRef) (other : h ≠ .synack) (time : UInt8)
    : (afterControl old { advance p s c h 0 with transmissionTime := time }).nextOutseqno = c.nextOutseqno
      ∧ (afterControl old { advance p s c h 0 with transmissionTime := time }).inflight = c.inflight
      ∧ (afterControl old { advance p s c h 0 with transmissionTime := time }).outputHandler = old := by
  obtain ⟨next, inflight, -⟩ := spanOf_advance (p := p) (s := s) (c := c) (isSyn_false other) 0
  have next : (advance p s c h 0).nextOutseqno = c.nextOutseqno := by
    rw [next]
    exact UInt32.add_zero _
  have inflight : (advance p s c h 0).inflight = c.inflight := by
    rw [inflight]
    exact UInt16.add_zero _
  unfold afterControl
  split
  · exact ⟨next, inflight, rfl⟩
  · split <;> exact ⟨next, inflight, rfl⟩

/-- The windows of the ring when `smews_send` serves the last connection. -/
theorem Serves.windows {before : List Connection} (serves : Serves p s before b c s')
    (ring : s.connections = before ++ [⟨b, .http c⟩]) (distinct : (s.connections.map Connection.addr).Nodup)
    : ∃ new, s'.sent = s.sent ++ new
      ∧ ∀ a d', ⟨a, .http d'⟩ ∈ s'.connections → ∃ d, ⟨a, .http d⟩ ∈ s.connections ∧ SentBy (sentOn a new) d d' := by
  have last : (⟨b, .http c⟩ : Connection) ∈ s.connections := by
    rw [ring]
    exact List.mem_append_right _ (List.mem_singleton_self _)
  -- the other connections, when one packet is sent on the last one
  have others (packet : Packet) {a : Addr} {d' : HttpConnection} (mem : ⟨a, .http d'⟩ ∈ before)
      : ∃ d, ⟨a, .http d⟩ ∈ s.connections ∧ SentBy (sentOn a [(some b, packet)]) d d' := by
    have old : (⟨a, .http d'⟩ : Connection) ∈ s.connections := by
      rw [ring]
      exact List.mem_append_left _ mem
    have other : b ≠ a := by
      rintro rfl
      rw [ring, List.map_append] at distinct
      exact (List.nodup_append.mp distinct).2.2 _ (List.mem_map_of_mem mem) _ (List.mem_singleton_self _) rfl
    refine ⟨d', old, .inl rfl, fun _ => ?_⟩
    rw [sentOn_other _ other]
    exact .still rfl rfl rfl
  have one (packet : Packet) (c' : HttpConnection) (by_ : SentBy [packet] c c')
      (ring' : s'.connections = before ∨ s'.connections = before ++ [⟨b, .http c'⟩]) {a : Addr} {d' : HttpConnection}
      (mem : ⟨a, .http d'⟩ ∈ s'.connections)
      : ∃ d, ⟨a, .http d⟩ ∈ s.connections ∧ SentBy (sentOn a [(some b, packet)]) d d' := by
    rcases ring' with ring' | ring' <;> rw [ring'] at mem
    · exact others packet mem
    · rw [List.mem_append, List.mem_singleton] at mem
      rcases mem with mem | eq
      · exact others packet mem
      · cases eq
        exact ⟨c, last, (sentOn_single packet).symm ▸ by_⟩
  cases serves with
  | ack instead sent ring' =>
      obtain ⟨next, inflight, handler⟩ := afterControl_window (p := p) (s := s) (c := { c with outputHandler := some .ack })
        c.outputHandler .ack (by decide) s.lastTransmissionTime
      refine ⟨_, sent, fun a d' mem => one _ _ ⟨.inl handler, fun _ => ?_⟩
        (ring'.imp And.right And.right) mem⟩
      exact .sent _ _ _ _ _ [] rfl (next.trans (UInt32.add_zero _).symm) (inflight.trans (UInt16.add_zero _).symm)
  | control h ready noAck handler isControl sent ring' =>
      refine ⟨_, sent, fun a d' mem => one _ _ ⟨.inr rfl, fun other => ?_⟩ (ring'.imp And.right And.right) mem⟩
      have syn : h ≠ .synack := fun eq => other (handler.trans (congrArg some eq))
      obtain ⟨next, inflight, -⟩ := afterControl_window (p := p) (s := s) (c := c) none h syn s.lastTransmissionTime
      exact .sent _ _ _ _ _ [] rfl (next.trans (UInt32.add_zero _).symm) (inflight.trans (UInt16.add_zero _).symm)
  | file h file payload ready noAck handler isFile content sent ring' =>
      have other : h ≠ .synack := by
        rintro rfl
        cases isFile
      obtain ⟨next, inflight, kept⟩ := spanOf_advance (p := p) (s := s) (c := c) (isSyn_false other) payload.length
      refine ⟨_, sent, fun a d' mem => one _ { advance p s c h payload.length with
        transmissionTime := s.lastTransmissionTime } ⟨.inl kept, fun _ => ?_⟩ (.inr ring') mem⟩
      exact .sent _ _ _ _ _ payload rfl next inflight
  | generator h resource ready noAck handler isGenerator call served =>
      obtain ⟨-, new, sent, each⟩ := sendGenerator_windows call ring isGenerator distinct handler
      refine ⟨new, sent, fun a d' mem => ?_⟩
      obtain ⟨d, mem, handler, moves⟩ := each a d' mem
      exact ⟨d, mem, .inl handler, fun _ => moves⟩

/-- What a call of `smews_send` does to the windows of the ring. -/
theorem smewsSend_windows (send : smewsSend p s = some s') (distinct : (s.connections.map Connection.addr).Nodup)
    : ∃ new, s'.sent = s.sent ++ new
      ∧ ∀ a d', ⟨a, .http d'⟩ ∈ s'.connections → ∃ d, ⟨a, .http d⟩ ∈ s.connections ∧ SentBy (sentOn a new) d d' := by
  have kept {new : List (Option Addr × Packet)} {a : Addr} {d : HttpConnection} (nothing : sentOn a new = [])
      : SentBy (sentOn a new) d d :=
    ⟨.inl rfl, fun _ => .still nothing rfl rfl⟩
  cases smewsSend_sends send with
  | nothing rst idle same =>
      subst same
      exact ⟨[], by rw [List.append_nil], fun a d mem => ⟨d, mem, kept rfl⟩⟩
  | reset rst same =>
      subst same
      exact ⟨_, rfl, fun a d mem => ⟨d, mem, kept rfl⟩⟩
  | gpip i before b g rst chosen ring answered =>
      obtain ⟨ring', ⟨_, -, sent⟩, -, -⟩ := answered
      have perm := (rotate_perm i s).map Connection.addr
      refine ⟨_, sent, fun a d mem => ?_⟩
      rw [ring'] at mem
      have old : (⟨a, .http d⟩ : Connection) ∈ s.connections := by
        rw [← (rotate_perm i s).mem_iff, ring]
        exact List.mem_append_left _ mem
      refine ⟨d, old, kept (sentOn_other _ ?_)⟩
      rintro rfl
      have names := perm.nodup_iff.mpr distinct
      rw [ring, List.map_append] at names
      exact (List.nodup_append.mp names).2.2 _ (List.mem_map_of_mem mem) _ (List.mem_singleton_self _) rfl
  | http i before b c rst chosen able ring serves =>
      have perm := rotate_perm i s
      obtain ⟨new, sent, each⟩ := serves.windows ring ((perm.map Connection.addr).nodup_iff.mpr distinct)
      refine ⟨new, sent, fun a d' mem => ?_⟩
      obtain ⟨d, mem, by_⟩ := each a d' mem
      exact ⟨d, perm.mem_iff.mp mem, by_⟩

end Windows

end Smews.Output
