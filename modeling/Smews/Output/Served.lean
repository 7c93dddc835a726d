import Smews.Output.Limits

/-! What one call of `smews_send` does to the ring: to the connection that it serves, and to the
other listeners of a comet handler.
-/

namespace Smews.Output

open Smews.Core

variable {p : Program}

--------------------------------------------------
-- Connections that a generator serves
--------------------------------------------------

/-- A connection before and after a part of the generation of a segment for `h`. -/
structure Served (h : HandlerRef) (c c' : HttpConnection) : Prop where
  handler : c.outputHandler = some h
  ipAddr : c'.ipAddr = c.ipAddr
  port : c'.port = c.port
  outputHandler : c'.outputHandler = c.outputHandler
  tcpMss : c'.tcpMss = c.tcpMss
  tcpState : c'.tcpState = c.tcpState
  currentInseqno : c'.currentInseqno = c.currentInseqno
  cwnd : c'.cwnd = c.cwnd
  cometSendAck : c'.cometSendAck = c.cometSendAck
  request : c'.request = { c.request with postData := c'.request.postData }
  advanced : ∃ n : Nat, c'.nextOutseqno = c.nextOutseqno + UInt32.ofNat n
    ∧ c'.inflight = c.inflight + UInt16.ofNat n

/-- A part of a generation that leaves the window alone. -/
theorem Served.still {h : HandlerRef} {c c' : HttpConnection} (handler : c.outputHandler = some h)
    (same : c' = { c with
      finalOutseqno := c'.finalOutseqno
      generatorService := c'.generatorService
      transmissionTime := c'.transmissionTime
      cometPassive := c'.cometPassive
      cometStreaming := c'.cometStreaming
      request := { c.request with postData := c'.request.postData } })
    : Served h c c' := by
  constructor <;> try (rw [same])
  · exact handler
  · exact ⟨0, by simp, by simp⟩

theorem Served.trans {h : HandlerRef} {c c' c'' : HttpConnection} (first : Served h c c')
    (second : Served h c' c'')
    : Served h c c'' := by
  obtain ⟨n, next, inflight⟩ := first.advanced
  obtain ⟨n', next', inflight'⟩ := second.advanced
  refine {
    handler := first.handler
    ipAddr := second.ipAddr.trans first.ipAddr
    port := second.port.trans first.port
    outputHandler := second.outputHandler.trans first.outputHandler
    tcpMss := second.tcpMss.trans first.tcpMss
    tcpState := second.tcpState.trans first.tcpState
    currentInseqno := second.currentInseqno.trans first.currentInseqno
    cwnd := second.cwnd.trans first.cwnd
    cometSendAck := second.cometSendAck.trans first.cometSendAck
    request := by rw [second.request, first.request]
    advanced := ⟨n + n', ?_, ?_⟩
  }
  · rw [next', next, UInt32.ofNat_add, UInt32.add_assoc]
  · rw [inflight', inflight, UInt16.ofNat_add, UInt16.add_assoc]

/-- A member of the ring is as before, or is served. -/
def ServedBy (h : HandlerRef) (k k' : Connection) : Prop :=
  k' = k ∨ ∃ c c', k.protocol = .http c ∧ k' = { k with protocol := .http c' } ∧ Served h c c'

theorem ServedBy.trans {h : HandlerRef} {k k' k'' : Connection} (first : ServedBy h k k')
    (second : ServedBy h k' k'')
    : ServedBy h k k'' := by
  rcases first with rfl | ⟨c, c', isHttp, rfl, served⟩
  · exact second
  · rcases second with rfl | ⟨d, d', isHttp', rfl, served'⟩
    · exact .inr ⟨c, c', isHttp, rfl, served⟩
    · cases isHttp'
      exact .inr ⟨c, d', isHttp, rfl, served.trans served'⟩

/-- An emitted segment of a handler that is no control packet. -/
def DataOf (p : Program) (h : HandlerRef) (entry : Option Addr × Packet) : Prop :=
  ∃ a c payload, entry = (some a, packetFor p c h payload) ∧ c.outputHandler = some h

/-- The server before and after a part of the generation of a segment for `h`. -/
structure RingServed (p : Program) (h : HandlerRef) (s s' : Server) : Prop where
  ring : List.Forall₂ (ServedBy h) s.connections s'.connections
  sent : ∃ new, s'.sent = s.sent ++ new ∧ (∀ entry ∈ new, DataOf p h entry)
    ∧ s'.outputDone = s.outputDone ++ new.map fun entry => (s.getCurrentRemoteIp, entry.2)
  packetCalls : s'.packetCalls = s.packetCalls

theorem RingServed.of_eq {h : HandlerRef} {s s' : Server} (same : s'.connections = s.connections)
    (sent : s'.sent = s.sent) (outputDone : s'.outputDone = s.outputDone)
    (packetCalls : s'.packetCalls = s.packetCalls)
    : RingServed p h s s' := by
  refine ⟨?_, ⟨[], by rw [sent, List.append_nil], (fun _ mem => nomatch mem), by simp [outputDone]⟩,
    packetCalls⟩
  rw [same]
  exact List.forall₂_same.mpr fun _ _ => .inl rfl

theorem ServedBy.ipAddr {h : HandlerRef} {k k' : Connection} (served : ServedBy h k k')
    : k'.ipAddr = k.ipAddr := by
  rcases served with rfl | ⟨c, c', isHttp, rfl, served⟩
  · rfl
  · rw [Connection.ipAddr, Connection.ipAddr, isHttp]
    exact served.ipAddr

/-- The addresses of the ring stay. -/
theorem ipAddrs_served {h : HandlerRef} {ring ring' : List Connection}
    (served : List.Forall₂ (ServedBy h) ring ring')
    : ring'.map (·.ipAddr) = ring.map (·.ipAddr) := by
  induction served with
  | nil => rfl
  | cons first _ ih => rw [List.map_cons, List.map_cons, first.ipAddr, ih]

theorem RingServed.currentRemoteIp {h : HandlerRef} {s s' : Server} (served : RingServed p h s s')
    : s'.getCurrentRemoteIp = s.getCurrentRemoteIp := by
  rw [Server.getCurrentRemoteIp, Server.getCurrentRemoteIp, ← List.getLast?_map, ← List.getLast?_map,
    ipAddrs_served served.ring]

/-- What sends nothing is not seen by the driver. -/
theorem RingServed.done {h : HandlerRef} {s s' : Server} (served : RingServed p h s s') (same : s'.sent = s.sent)
    : s'.outputDone = s.outputDone := by
  obtain ⟨new, sent, -, done⟩ := served.sent
  rw [same] at sent
  rw [done, List.self_eq_append_right.mp sent, List.map_nil, List.append_nil]

theorem RingServed.trans {h : HandlerRef} {s s' s'' : Server} (first : RingServed p h s s')
    (second : RingServed p h s' s'')
    : RingServed p h s s'' := by
  have remote := first.currentRemoteIp
  obtain ⟨ring, ⟨new, sent, data, done⟩, calls⟩ := first
  obtain ⟨ring', ⟨new', sent', data', done'⟩, calls'⟩ := second
  refine ⟨?_, ⟨new ++ new', by rw [sent', sent, List.append_assoc], fun entry mem => ?_,
    by rw [done', done, remote, List.map_append, List.append_assoc]⟩, calls'.trans calls⟩
  · rw [List.forall₂_iff_get] at *
    obtain ⟨length, each⟩ := ring
    obtain ⟨length', each'⟩ := ring'
    exact ⟨length.trans length', fun i hi hi' =>
      (each i hi (length ▸ hi)).trans (each' i (length ▸ hi) hi')⟩
  · rcases List.mem_append.mp mem with earlier | later
    · exact data entry earlier
    · exact data' entry later

/-- Only the ring and the history of packets of the first state matter. -/
theorem RingServed.from {h : HandlerRef} {s t s' : Server} (served : RingServed p h t s')
    (same : t.connections = s.connections) (sent : t.sent = s.sent)
    (outputDone : t.outputDone = s.outputDone) (packetCalls : t.packetCalls = s.packetCalls)
    : RingServed p h s s' :=
  (RingServed.of_eq same sent outputDone packetCalls).trans served

/-- A change of the ring by positions. -/
theorem forall₂_of_getElem? {h : HandlerRef} {ring ring' : List Connection}
    (length : ring'.length = ring.length)
    (each : ∀ (j : Nat) (k k' : Connection), ring[j]? = some k → ring'[j]? = some k'
      → ServedBy h k k')
    : List.Forall₂ (ServedBy h) ring ring' := by
  rw [List.forall₂_iff_get]
  refine ⟨length.symm, fun j hj hj' => each j _ _ ?_ ?_⟩
  · exact List.getElem?_eq_getElem hj
  · exact List.getElem?_eq_getElem hj'

/-- A store into the connection at a position. -/
theorem RingServed.setHttp {h : HandlerRef} {s : Server} {i : Nat} {c c' : HttpConnection}
    (here : s.http i = some c) (served : Served h c c')
    : RingServed p h s (s.setHttp i c') := by
  obtain ⟨addr, at_i⟩ := http_eq here
  refine ⟨forall₂_of_getElem? (by simp [Server.setHttp]) fun j k k' at_j at_j' => ?_,
    ⟨[], by simp [Server.setHttp], (fun _ mem => nomatch mem), by simp [Server.setHttp]⟩, rfl⟩
  simp only [Server.setHttp, List.getElem?_modify, at_j] at at_j'
  by_cases hj : i = j
  · subst hj
    rw [at_i] at at_j
    cases at_j
    simp only [if_pos, Option.map_eq_map, Option.map_some, Option.some.injEq] at at_j'
    exact .inr ⟨c, c', rfl, at_j'.symm, served⟩
  · simp only [if_neg hj, Option.map_eq_map, Option.map_some, Option.some.injEq] at at_j'
    exact .inl at_j'.symm

/-- The other listeners become passive when a comet response begins. -/
theorem markPassive_served (i : Nat) (h : HandlerRef) (s : Server)
    : RingServed p h s (markPassive i h s) := by
  refine ⟨forall₂_of_getElem? (by simp [markPassive]) fun j k k' at_j at_j' => ?_,
    ⟨[], by simp [markPassive], (fun _ mem => nomatch mem), by simp [markPassive]⟩, rfl⟩
  simp only [markPassive, List.getElem?_map, List.getElem?_zipIdx, at_j, Option.map_some,
    Option.some.injEq] at at_j'
  subst at_j'
  obtain ⟨addr, protocol⟩ := k
  cases protocol with
  | gpip g => exact .inl rfl
  | http c =>
      dsimp only
      split
      · exact .inr ⟨c, _, rfl, rfl, .still (by assumption) rfl⟩
      · exact .inl rfl

--------------------------------------------------
-- The parts of a generation
--------------------------------------------------

theorem initService_served {i : Nat} {a : Addr} {c : HttpConnection} {h : HandlerRef}
    {resource : DynamicResource} {s : Server} (here : s.http i = some c)
    (handler : c.outputHandler = some h)
    : RingServed p h s (initService p i c h resource a s) := by
  set c' := { c with
    generatorService := some a
    finalOutseqno := c.nextOutseqno - 1
    cometStreaming := (p.handler h).handlerStream || c.cometStreaming } with c'_eq
  have stored : RingServed p h s (s.setHttp i c') := .setHttp here (.still handler rfl)
  unfold initService
  dsimp only
  split
  · exact stored.trans ((markPassive_served i h (s.setHttp i c')).trans (.of_eq rfl rfl rfl rfl))
  · exact stored.trans (.of_eq rfl rfl rfl rfl)

theorem createService_served {i : Nat} {c : HttpConnection} {h : HandlerRef}
    (resource : DynamicResource) {s : Server} (here : s.http i = some c)
    (handler : c.outputHandler = some h)
    : RingServed p h s (createService p i c h resource s).2 := by
  unfold createService
  split
  · exact .of_eq rfl rfl rfl rfl
  · rename_i a heap _
    exact (initService_served (p := p) (i := i) (a := a) (s := { s with heap }) here handler).from
      rfl rfl rfl rfl

/-- The generator runs for the connection at a position, which loses its POST data at the end. -/
theorem runGenerator_served {i : Nat} {a : Addr} {c : HttpConnection} {h : HandlerRef}
    {buffer : Addr} {s s' : Server} {ended : Bool}
    (run : runGenerator p i a c buffer s = some (ended, s')) (here : s.http i = some c)
    (handler : c.outputHandler = some h)
    : RingServed p h s s' := by
  unfold runGenerator at run
  rw [Option.bind_eq_bind, Option.bind_eq_some_iff] at run
  obtain ⟨⟨⟨frame, bytes⟩, heap⟩, -, rest⟩ := run
  dsimp only at rest
  split at rest <;> simp only [Option.some.injEq, Prod.mk.injEq] at rest <;>
    obtain ⟨-, rfl⟩ := rest
  · exact .of_eq rfl rfl rfl rfl
  · unfold cleanPostData
    split
    · exact .of_eq rfl rfl rfl rfl
    · have cleared : Served h c { c with request := { c.request with postData := none } } :=
        .still handler rfl
      exact RingServed.trans (.setHttp here cleared) (.of_eq rfl rfl rfl rfl)

/-- The state in which a part of a generation ends. -/
def Progress.state {α : Type} : Progress α → Server
  | .stop s => s
  | .go _ s => s

theorem prepareRecord_state (a : Addr) (seqno : UInt32) (buffer : Addr) (s : Server)
    : Calm s (prepareRecord p a seqno buffer s).state := by
  have calm := prepareRecord_calm (p := p) a seqno buffer s
  cases prepared : prepareRecord p a seqno buffer s with
  | stop s' =>
      rw [prepared] at calm
      exact calm
  | go addr s' =>
      rw [prepared] at calm
      exact calm

theorem recordBuffer_calm (a addr : Addr) (seqno : UInt32) (buffer : Addr) (s : Server)
    : Calm s (recordBuffer a addr seqno buffer s) := by
  unfold recordBuffer
  dsimp only
  split
  · exact .setService s a _
  · exact .refl s

theorem http_of_connections {s s' : Server} (same : s'.connections = s.connections) (i : Nat)
    : s'.http i = s.http i := by
  unfold Server.http
  rw [same]

theorem generate_served {i : Nat} {a : Addr} {c : HttpConnection} {h : HandlerRef}
    {retransmitting : Bool} {s : Server} {progress : Progress Bool}
    (step : generate p i a c retransmitting s = some progress) (here : s.http i = some c)
    (handler : c.outputHandler = some h)
    : RingServed p h s progress.state := by
  have setUp := setupSegment_spec s a c.nextOutseqno retransmitting
  have set := setUp.connections
  have sent := setUp.sent
  have done := setUp.outputDone
  have calls := setUp.packetCalls
  have here' := (http_of_connections set i).trans here
  unfold generate at step
  dsimp only at step
  clear setUp
  generalize setupSegment a c.nextOutseqno retransmitting s = t at step set sent done calls here'
  refine RingServed.from ?_ set sent done calls
  split_ifs at step
  · simp only [Option.some.injEq] at step
    subst step
    exact .of_eq rfl rfl rfl rfl
  · unfold regenerate at step
    split at step
    · simp only [Option.some.injEq] at step
      subst step
      exact .of_eq rfl rfl rfl rfl
    · rename_i buffer heap _
      rw [Option.map_eq_some_iff] at step
      obtain ⟨⟨ended, t'⟩, run, rfl⟩ := step
      exact (runGenerator_served (s := { t with heap }) run here' handler).from rfl rfl rfl rfl
  · unfold generateNew at step
    split at step
    · simp only [Option.some.injEq] at step
      subst step
      exact .of_eq rfl rfl rfl rfl
    · rename_i buffer heap _
      have calm := prepareRecord_state (p := p) a c.nextOutseqno buffer { t with heap }
      split at step
      · rename_i t' prepared
        simp only [Option.some.injEq] at step
        subst step
        rw [prepared] at calm
        exact .of_eq calm.connections calm.sent calm.outputDone calm.packetCalls
      · rename_i addr t' prepared
        rw [prepared] at calm
        rw [Option.map_eq_some_iff] at step
        obtain ⟨⟨ended, u⟩, run, rfl⟩ := step
        have served := runGenerator_served run ((calm.http i).trans here') handler
        have recorded := recordBuffer_calm a addr c.nextOutseqno buffer u
        exact (served.from (s := t) calm.connections calm.sent calm.outputDone calm.packetCalls).trans
          (.of_eq recorded.connections recorded.sent recorded.outputDone recorded.packetCalls)

theorem nextSegment_served {i : Nat} {a : Addr} {c : HttpConnection} {h : HandlerRef}
    {retransmitting : Bool} {s : Server} {progress : Progress Bool}
    (step : nextSegment p i a c retransmitting s = some progress) (here : s.http i = some c)
    (handler : c.outputHandler = some h)
    : RingServed p h s progress.state := by
  unfold nextSegment at step
  split at step
  · rw [Option.map_eq_some_iff] at step
    obtain ⟨t, again, rfl⟩ := step
    unfold resend at again
    rw [Option.bind_eq_bind, Option.bind_eq_some_iff] at again
    obtain ⟨r, -, stored⟩ := again
    split at stored
    · cases stored
    · simp only [Option.some.injEq] at stored
      subst stored
      exact .of_eq rfl rfl rfl rfl
  · exact generate_served step here handler

--------------------------------------------------
-- The emission
--------------------------------------------------

/-- The sequence numbers advance with the segment of a generator. -/
theorem advance_served {s : Server} {c : HttpConnection} {h : HandlerRef}
    {resource : DynamicResource} (generator : (p.handler h).data = .generator resource)
    (handler : c.outputHandler = some h) (length : Nat)
    : Served h c { advance p s c h length with transmissionTime := s.lastTransmissionTime } := by
  have data : isSyn p h = false := by
    simp only [isSyn, getFlags, generator]
    decide
  simp only [advance, data, generator, Bool.false_eq_true, if_false]
  split <;> constructor <;> first | rfl | exact handler | exact ⟨length, rfl, rfl⟩

theorem sendPacket_served {i : Nat} {h : HandlerRef} {resource : DynamicResource}
    {c : HttpConnection} {s s' : Server} (send : sendPacket p i s = some s')
    (generator : (p.handler h).data = .generator resource) (here : s.http i = some c)
    (handler : c.outputHandler = some h)
    : RingServed p h s s' := by
  obtain ⟨addr, c', h', payload, at_i, handler', -, rfl⟩ := sendPacket_spec send
  have same : s.http i = some c' := by simp [Server.http, at_i]
  rw [here] at same
  cases same
  rw [handler] at handler'
  cases handler'
  have stored := RingServed.setHttp (p := p) here
    (advance_served (s := s) generator handler payload.length)
  refine ⟨stored.ring, ⟨[(some addr, packetFor p c h payload)], rfl, fun entry mem => ?_, rfl⟩, rfl⟩
  rw [List.mem_singleton] at mem
  exact ⟨addr, c, payload, mem, handler⟩

theorem endStream_served {i : Nat} {ended : Bool} {h : HandlerRef} {s s' : Server}
    {c : HttpConnection} (step : endStream i ended s = some s') (here : s.http i = some c)
    (handler : c.outputHandler = some h)
    : RingServed p h s s' := by
  unfold endStream at step
  split at step
  · simp only [here, Option.map_some, Option.some.injEq] at step
    subst step
    have ended : Served h c { c with finalOutseqno := c.nextOutseqno } := .still handler rfl
    exact .setHttp here ended
  · simp only [Option.some.injEq] at step
    subst step
    exact .of_eq rfl rfl rfl rfl

/-- The connection at a position keeps its handler while the ring is served. -/
theorem RingServed.http {h : HandlerRef} {s s' : Server} {i : Nat} {c : HttpConnection}
    (served : RingServed p h s s') (here : s.http i = some c)
    : ∃ c', s'.http i = some c' ∧ (c' = c ∨ Served h c c') := by
  obtain ⟨addr, at_i⟩ := http_eq here
  obtain ⟨length, each⟩ := List.forall₂_iff_get.mp served.ring
  obtain ⟨lt, eq⟩ := List.getElem?_eq_some_iff.mp at_i
  have lt' : i < s'.connections.length := length ▸ lt
  have by_i := each i lt lt'
  simp only [List.get_eq_getElem, eq] at by_i
  rcases by_i with same | ⟨d, d', isHttp, same, pair⟩
  · exact ⟨c, by simp [Server.http, List.getElem?_eq_getElem lt', same], .inl rfl⟩
  · cases isHttp
    exact ⟨d', by simp [Server.http, List.getElem?_eq_getElem lt', same], .inr pair⟩

theorem multicastTo_served {j : Nat} {h : HandlerRef} {resource : DynamicResource} {ended : Bool}
    {s s' : Server} (send : multicastTo p h ended j s = some s')
    (generator : (p.handler h).data = .generator resource)
    : RingServed p h s s' := by
  unfold multicastTo at send
  rw [Option.bind_eq_bind, Option.bind_eq_some_iff] at send
  obtain ⟨connection, at_j, send⟩ := send
  obtain ⟨addr, protocol⟩ := connection
  cases protocol with
  | gpip g =>
      simp only [Option.some.injEq] at send
      subst send
      exact .of_eq rfl rfl rfl rfl
  | http c =>
      have here : s.http j = some c := by simp [Server.http, at_j]
      dsimp only at send
      split_ifs at send with able stream positive
      · rw [Option.bind_eq_some_iff] at send
        obtain ⟨t, first, last⟩ := send
        have served := sendPacket_served first generator here able.1
        obtain ⟨c', here', same⟩ := served.http here
        have handler : c'.outputHandler = some h := by
          rcases same with rfl | pair
          · exact able.1
          · rw [pair.outputHandler, able.1]
        exact served.trans (endStream_served last here' handler)
      · exact endStream_served send here able.1
      · exact sendPacket_served send generator here able.1
      · simp only [Option.some.injEq] at send
        subst send
        exact .of_eq rfl rfl rfl rfl

/-- A comet segment on the first connections of the ring, by induction on their number. -/
theorem multicast_served {h : HandlerRef} {resource : DynamicResource} {ended : Bool}
    {s : Server} (n : Nat) {s' : Server}
    (send : (List.range n).foldlM (fun s j => multicastTo p h ended j s) s = some s')
    (generator : (p.handler h).data = .generator resource)
    : RingServed p h s s' := by
  induction n generalizing s' with
  | zero =>
      simp only [List.range_zero, List.foldlM_nil, Option.pure_def, Option.some.injEq] at send
      subst send
      exact .of_eq rfl rfl rfl rfl
  | succ n ih =>
      rw [List.range_succ, List.foldlM_append, Option.bind_eq_bind,
        Option.bind_eq_some_iff] at send
      obtain ⟨t, before, last⟩ := send
      simp only [List.foldlM_cons, List.foldlM_nil, Option.bind_eq_bind, Option.pure_def,
        Option.bind_fun_some] at last
      exact (ih before).trans (multicastTo_served last generator)

theorem emit_served {i : Nat} {h : HandlerRef} {resource : DynamicResource} {ended : Bool}
    {c : HttpConnection} {s s' : Server} (send : emit p i h ended s = some s')
    (generator : (p.handler h).data = .generator resource) (here : s.http i = some c)
    (handler : c.outputHandler = some h)
    : RingServed p h s s' := by
  unfold emit at send
  split at send
  · exact multicast_served _ send generator
  · exact sendPacket_served send generator here handler

theorem concludeSegment_served {i : Nat} {a : Addr} {h : HandlerRef}
    {retransmitting ended : Bool} {c : HttpConnection} {s s' : Server}
    (step : concludeSegment p i a h retransmitting ended s = some s') (here : s.http i = some c)
    (handler : c.outputHandler = some h)
    : RingServed p h s s' := by
  unfold concludeSegment at step
  dsimp only at step
  rw [Option.bind_eq_bind, Option.bind_eq_some_iff] at step
  obtain ⟨c', here', rest⟩ := step
  have same : c' = c := by
    split at here' <;> exact Option.some.inj (here'.symm.trans here)
  subst same
  have at_i (t : Server) (same : t.connections = s.connections) (sent : t.sent = s.sent)
      (done : t.outputDone = s.outputDone) (calls : t.packetCalls = s.packetCalls)
      : RingServed p h s (t.setHttp i { c' with generatorService := none }) :=
    (RingServed.setHttp ((http_of_connections same i).trans here) (.still handler rfl)).from
      same sent done calls
  split at rest <;> simp only [Option.some.injEq] at rest <;> subst rest
  · refine at_i _ ?_ ?_ ?_ ?_ <;>
      (repeat' split) <;> rfl
  · refine .of_eq ?_ ?_ ?_ ?_ <;>
      (repeat' split) <;> rfl

/-- A call of `smews_send` for a generator changes only the connections of its handler. -/
theorem sendService_served {i : Nat} {a : Addr} {h : HandlerRef} {resource : DynamicResource}
    {c : HttpConnection} {s s' : Server} (send : sendService p i a h s = some s')
    (generator : (p.handler h).data = .generator resource) (here : s.http i = some c)
    (handler : c.outputHandler = some h)
    : RingServed p h s s' := by
  unfold sendService at send
  simp only [here, Option.bind_eq_bind, Option.bind_some] at send
  split at send
  · simp only [Option.some.injEq] at send
    subst send
    exact .of_eq rfl rfl rfl rfl
  · rw [Option.bind_eq_some_iff] at send
    obtain ⟨progress, step, rest⟩ := send
    have served : RingServed p h s progress.state :=
      (nextSegment_served step here handler).from rfl rfl rfl rfl
    cases progress with
    | stop t =>
        simp only [Option.some.injEq] at rest
        subst rest
        exact (RingServed.of_eq rfl rfl rfl rfl).trans served
    | go ended t =>
        dsimp only at rest
        rw [Option.bind_eq_some_iff] at rest
        obtain ⟨u, sent, concluded⟩ := rest
        obtain ⟨c1, here1, same1⟩ := served.http here
        have handler1 : c1.outputHandler = some h := by
          rcases same1 with rfl | pair
          · exact handler
          · rw [pair.outputHandler, handler]
        have emitted : RingServed p h t u := (emit_served sent generator here1 handler1).from rfl rfl rfl rfl
        obtain ⟨c2, here2, same2⟩ := emitted.http here1
        have handler2 : c2.outputHandler = some h := by
          rcases same2 with rfl | pair
          · exact handler1
          · rw [pair.outputHandler, handler1]
        exact (served.trans emitted).trans (concludeSegment_served concluded here2 handler2)

theorem sendGenerator_served {i : Nat} {h : HandlerRef} {resource : DynamicResource}
    {c : HttpConnection} {s s' : Server} (send : sendGenerator p i h resource s = some s')
    (generator : (p.handler h).data = .generator resource) (here : s.http i = some c)
    (handler : c.outputHandler = some h)
    : RingServed p h s s' := by
  unfold sendGenerator at send
  simp only [here, Option.bind_eq_bind, Option.bind_some] at send
  set t := s.setOutput { s.currOutput with maxBytes := maxBytes p c.tcpMss .none }
  have here' : t.http i = some c := here
  cases service : c.generatorService with
  | some a =>
      simp only [service] at send
      exact (sendService_served (s := t) send generator here' handler).from rfl rfl rfl rfl
  | none =>
      simp only [service] at send
      have created := createService_served (p := p) resource here' handler
      split at send
      · rename_i u eq
        simp only [Option.some.injEq] at send
        subst send
        rw [eq] at created
        exact created.from rfl rfl rfl rfl
      · rename_i a u eq
        rw [eq] at created
        obtain ⟨c1, here1, same1⟩ := created.http here'
        have handler1 : c1.outputHandler = some h := by
          rcases same1 with rfl | pair
          · exact handler
          · rw [pair.outputHandler, handler]
        exact (created.from (s := s) rfl rfl rfl rfl).trans
          (sendService_served send generator here1 handler1)

--------------------------------------------------
-- One call
--------------------------------------------------

/-- A connection after its control packet was sent, unless it is freed. -/
def afterControl (old : Option HandlerRef) (c : HttpConnection) : HttpConnection :=
  match old with
  | none => { c with outputHandler := none }
  | some h =>
      if c.request.readyToSend then
        { c with outputHandler := some h, cometSendAck := false, finalOutseqno := c.nextOutseqno }
      else { c with outputHandler := some h }

/-- The sequence numbers of a packet do not matter to what else a connection is. -/
theorem advance_frame {t : Server} (c : HttpConnection) (h : HandlerRef) (length : Nat)
    : (advance p t c h length).ipAddr = c.ipAddr ∧ (advance p t c h length).port = c.port
      ∧ (advance p t c h length).tcpState = c.tcpState
      ∧ (advance p t c h length).request = c.request
      ∧ (advance p t c h length).outputHandler = c.outputHandler
      ∧ (advance p t c h length).cometSendAck = c.cometSendAck := by
  unfold advance
  dsimp only
  split
  · exact ⟨rfl, rfl, rfl, rfl, rfl, rfl⟩
  · split
    · split <;> exact ⟨rfl, rfl, rfl, rfl, rfl, rfl⟩
    · exact ⟨rfl, rfl, rfl, rfl, rfl, rfl⟩

theorem afterControl_frame (old : Option HandlerRef) (c : HttpConnection)
    : (afterControl old c).ipAddr = c.ipAddr ∧ (afterControl old c).port = c.port
      ∧ (afterControl old c).tcpState = c.tcpState := by
  unfold afterControl
  split
  · exact ⟨rfl, rfl, rfl⟩
  · split <;> exact ⟨rfl, rfl, rfl⟩

/-- A store into the last connection of the ring. -/
theorem setHttp_last {s : Server} {before : List Connection} {a : Addr} {protocol : Protocol}
    (ring : s.connections = before ++ [⟨a, protocol⟩]) (c : HttpConnection)
    : (s.setHttp before.length c).connections = before ++ [⟨a, .http c⟩] := by
  rw [Server.setHttp, ring]
  exact Server.modify_last _ before _

/-- The ring after a connection was freed. -/
theorem freeConnection_connections {i : Nat} {s s' : Server}
    (free : s.freeConnection p i = some s')
    : s'.connections = s.connections.drop (i + 1) ++ s.connections.take i := by
  unfold Server.freeConnection at free
  rw [Option.bind_eq_bind, Option.bind_eq_some_iff] at free
  obtain ⟨connection, -, free⟩ := free
  dsimp only at free
  split at free
  · simp only [Option.some.injEq] at free
    rw [← free]
  · rw [Option.bind_eq_bind, Option.bind_eq_some_iff] at free
    obtain ⟨heap, -, free⟩ := free
    simp only [Option.some.injEq] at free
    subst free
    unfold Server.freeService
    dsimp only
    split <;> rfl

theorem freeConnection_last {s s' : Server} {before : List Connection} {k : Connection}
    (free : s.freeConnection p before.length = some s') (ring : s.connections = before ++ [k])
    : s'.connections = before := by
  rw [freeConnection_connections free, ring]
  simp

/-- A control packet is sent for the last connection of the ring, which is freed when it is
closing.
-/
theorem sendControl_spec {old : Option HandlerRef} {h : HandlerRef} {s s' : Server}
    {before : List Connection} {a : Addr} {c : HttpConnection}
    (send : sendControl p before.length old s = some s') (control : p.isControl h)
    (ring : s.connections = before ++ [⟨a, .http c⟩]) (handler : c.outputHandler = some h)
    : s'.sent = s.sent ++ [(some a, packetFor p c h [])]
      ∧ ((c.tcpState = .closing ∧ s'.connections = before)
        ∨ (c.tcpState ≠ .closing
          ∧ s'.connections = before ++ [⟨a, .http (afterControl old { advance p s c h 0 with
            transmissionTime := s.lastTransmissionTime })⟩])) := by
  have here : s.http before.length = some c := by simp [Server.http, ring]
  have empty : segmentPayload p s c h = some [] := by
    unfold Program.isControl at control
    unfold segmentPayload
    split at control
    · rename_i isControl
      rw [isControl]
    · cases control
  set c' := { advance p s c h 0 with transmissionTime := s.lastTransmissionTime } with c'_eq
  have state : c'.tcpState = c.tcpState := by
    simp only [c'_eq, advance]
    split
    · rfl
    · repeat' split
      all_goals rfl
  have sent : sendPacket p before.length s = some { s.setHttp before.length c' with
      sent := s.sent ++ [(some a, packetFor p c h [])]
      outputDone := s.outputDone ++ [(s.getCurrentRemoteIp, packetFor p c h [])] } := by
    simp [sendPacket, ring, handler, empty, c'_eq]
  have stored (d : HttpConnection) (t : Server)
      (same : t.connections = (s.setHttp before.length c').connections)
      : (t.setHttp before.length d).connections = before ++ [⟨a, .http d⟩] :=
    setHttp_last (same.trans (setHttp_last ring c')) d
  unfold sendControl at send
  rw [sent, Option.bind_eq_bind, Option.bind_some, Option.bind_eq_bind] at send
  have here' : Server.http { s.setHttp before.length c' with
      sent := s.sent ++ [(some a, packetFor p c h [])]
      outputDone := s.outputDone ++ [(s.getCurrentRemoteIp, packetFor p c h [])] } before.length
        = some c' :=
    setHttp_http here
  rw [here', Option.bind_some] at send
  dsimp only at send
  split at send
  · rename_i closing
    refine ⟨(freeConnection_quiet send).1, .inl ⟨state ▸ closing, ?_⟩⟩
    exact freeConnection_last send (stored _ _ rfl)
  · rename_i open_
    rw [state] at open_
    cases old with
    | none =>
        simp only [Option.some.injEq] at send
        subst send
        exact ⟨rfl, .inr ⟨open_, stored _ _ rfl⟩⟩
    | some h' =>
        simp only at send
        split at send <;> rename_i ready <;> simp only [Option.some.injEq] at send <;>
          subst send <;> refine ⟨rfl, .inr ⟨open_, ?_⟩⟩
        · rw [afterControl, if_pos ready]
          exact stored _ _ rfl
        · rw [afterControl, if_neg ready]
          exact stored _ _ rfl

/-- What a call of `smews_send` does when it serves the connection `c` of the address `a`, with
the other connections of the ring before it.
-/
inductive Serves (p : Program) (s : Server) (before : List Connection) (a : Addr)
    (c : HttpConnection) (s' : Server) : Prop
  /-- A plain acknowledgement is sent in the place of the handler. -/
  | ack (instead : ¬ c.request.readyToSend ∨ c.cometSendAck)
    (sent : s'.sent = s.sent ++ [(some a, packetFor p { c with outputHandler := some .ack } .ack [])])
    (ring : (c.tcpState = .closing ∧ s'.connections = before)
      ∨ (c.tcpState ≠ .closing ∧ s'.connections = before ++ [⟨a, .http (afterControl c.outputHandler
        { advance p s { c with outputHandler := some .ack } .ack 0 with
          transmissionTime := s.lastTransmissionTime })⟩]))
  | control (h : HandlerRef) (ready : c.request.readyToSend) (noAck : c.cometSendAck = false)
    (handler : c.outputHandler = some h) (isControl : p.isControl h)
    (sent : s'.sent = s.sent ++ [(some a, packetFor p c h [])])
    (ring : (c.tcpState = .closing ∧ s'.connections = before)
      ∨ (c.tcpState ≠ .closing
        ∧ s'.connections = before ++ [⟨a, .http (afterControl none { advance p s c h 0 with
          transmissionTime := s.lastTransmissionTime })⟩]))
  | file (h : HandlerRef) (file : StaticResource) (payload : List UInt8)
    (ready : c.request.readyToSend) (noAck : c.cometSendAck = false)
    (handler : c.outputHandler = some h) (isFile : (p.handler h).data = .file file)
    (content : filePayload p c file = some payload)
    (sent : s'.sent = s.sent ++ [(some a, packetFor p c h payload)])
    (ring : s'.connections = before ++ [⟨a, .http { advance p s c h payload.length with
      transmissionTime := s.lastTransmissionTime }⟩])
  | generator (h : HandlerRef) (resource : DynamicResource)
    (ready : c.request.readyToSend) (noAck : c.cometSendAck = false)
    (handler : c.outputHandler = some h) (isGenerator : (p.handler h).data = .generator resource)
    (call : sendGenerator p before.length h resource s = some s') (served : RingServed p h s s')

/-- The history of packets grows. -/
theorem Serves.extends_ {s s' : Server} {before : List Connection} {a : Addr} {c : HttpConnection}
    (serves : Serves p s before a c s')
    : ∃ more, s'.sent = s.sent ++ more := by
  cases serves with
  | ack _ sent _ => exact ⟨_, sent⟩
  | control _ _ _ _ _ sent _ => exact ⟨_, sent⟩
  | file _ _ _ _ _ _ _ _ sent _ => exact ⟨_, sent⟩
  | generator _ _ _ _ _ _ _ served =>
      obtain ⟨more, sent, -⟩ := served.sent
      exact ⟨more, sent⟩

theorem sendHttp_serves {s s' : Server} {before : List Connection} {a : Addr} {c : HttpConnection}
    (send : sendHttp p before.length s = some s')
    (ring : s.connections = before ++ [⟨a, .http c⟩])
    : Serves p s before a c s' := by
  have here : s.http before.length = some c := by simp [Server.http, ring]
  unfold sendHttp at send
  simp only [here, Option.bind_eq_bind, Option.bind_some] at send
  split_ifs at send with ack
  · obtain ⟨sent, after⟩ := sendControl_spec send rfl
      (setHttp_last ring { c with outputHandler := some .ack }) rfl
    exact .ack ack sent after
  · rw [not_or, not_not, Bool.not_eq_true] at ack
    rw [Option.bind_eq_some_iff] at send
    obtain ⟨h, handler, rest⟩ := send
    cases data : (p.handler h).data with
    | control length flags =>
        simp only [data] at rest
        have isControl : p.isControl h := by simp [Program.isControl, data]
        obtain ⟨sent, after⟩ := sendControl_spec rest isControl ring handler
        exact .control h ack.1 ack.2 handler isControl sent after
    | file file =>
        simp only [data] at rest
        obtain ⟨addr, c', h', payload, at_i, handler', content, rfl⟩ := sendPacket_spec rest
        simp only [ring, List.getElem?_append_right le_rfl, Nat.sub_self, List.getElem?_cons_zero,
          Option.some.injEq, Connection.mk.injEq, Protocol.http.injEq] at at_i
        obtain ⟨rfl, rfl⟩ := at_i
        rw [handler] at handler'
        cases handler'
        simp only [segmentPayload, data] at content
        exact .file h file payload ack.1 ack.2 handler data content rfl (setHttp_last ring _)
    | generator resource =>
        simp only [data] at rest
        exact .generator h resource ack.1 ack.2 handler data rest
          (sendGenerator_served rest data here handler)
    | generalIp g => simp [data] at rest

/-- The last connection of the ring, above IP, is answered and freed. -/
structure GpIpAnswered (p : Program) (a : Addr) (c : GpIpConnection) (before : List Connection)
    (s s' : Server)
    : Prop where
  ring : s'.connections = before
  sent : ∃ g, (p.handler c.outputHandler).data = .generalIp g
    ∧ s'.sent = s.sent ++ [(some a, {
        destination := c.ipAddr
        body := .gpip c.protocol
          ((g.dopacketout s.heap.starts s.packetCalls (c.info a)).take (gpIpMaxBytes p).toNat)
      })]
  calls : s'.packetCalls = s.packetCalls ++ [.packetOut c.outputHandler (c.info a)]
  freed : s'.heap = s.heap.memFree (some a) p.sizeofConnection

/-- What a call of `smews_send` does: nothing, a reset, a packet above IP, or it serves the
connection that comes last once the ring was rotated.
-/
inductive Sends (p : Program) (s s' : Server) : Prop
  | nothing (rst : s.rstConnection.port = 0)
    (idle : s.connections.findIdx? (·.ableToSend p) = none) (same : s' = s)
  | reset (rst : s.rstConnection.port ≠ 0) (same : s' = sendRst s)
  | gpip (i : Nat) (before : List Connection) (a : Addr) (c : GpIpConnection)
    (rst : s.rstConnection.port = 0) (chosen : s.connections.findIdx? (·.ableToSend p) = some i)
    (ring : (rotate i s).connections = before ++ [⟨a, .gpip c⟩])
    (answered : GpIpAnswered p a c before (rotate i s) s')
  | http (i : Nat) (before : List Connection) (a : Addr) (c : HttpConnection)
    (rst : s.rstConnection.port = 0) (chosen : s.connections.findIdx? (·.ableToSend p) = some i)
    (able : (Connection.mk a (.http c)).ableToSend p)
    (ring : (rotate i s).connections = before ++ [⟨a, .http c⟩])
    (serves : Serves p (rotate i s) before a c s')

theorem rotate_perm (i : Nat) (s : Server) : (rotate i s).connections.Perm s.connections := by
  conv_rhs => rw [← List.take_append_drop (i + 1) s.connections]
  exact List.perm_append_comm

/-- The connection that is chosen comes last. -/
theorem rotate_last {i : Nat} {s : Server} {k : Connection} (at_i : s.connections[i]? = some k)
    : (rotate i s).connections = (s.connections.drop (i + 1) ++ s.connections.take i) ++ [k] := by
  rw [rotate, List.append_assoc, List.take_add_one, at_i]
  rfl

theorem sendGpIp_last {s s' : Server} {before : List Connection} {a : Addr} {c : GpIpConnection}
    (send : sendGpIp p before.length c s = some s') (ring : s.connections = before ++ [⟨a, .gpip c⟩])
    : GpIpAnswered p a c before s s' := by
  unfold sendGpIp at send
  split at send
  case h_1 g data =>
    dsimp only at send
    rw [Option.bind_eq_bind, Option.bind_eq_some_iff] at send
    obtain ⟨k, at_last, free⟩ := send
    have same : k = ⟨a, .gpip c⟩ := by
      simp only [ring, List.getElem?_append_right le_rfl] at at_last
      simpa using at_last.symm
    subst same
    have freed := free.symm.trans (Server.freeConnection_gpIp ring)
    cases freed
    exact ⟨rfl, ⟨g, data, rfl⟩, rfl, rfl⟩
  case h_2 => cases send

theorem smewsSend_sends {s s' : Server} (send : smewsSend p s = some s') : Sends p s s' := by
  unfold smewsSend at send
  by_cases rst : s.rstConnection.port = 0
  · rw [if_neg (not_not.mpr rst)] at send
    cases chosen : s.connections.findIdx? (·.ableToSend p) with
    | none =>
        simp only [chosen, Option.some.injEq] at send
        exact .nothing rst chosen send.symm
    | some i =>
        obtain ⟨lt, able, -⟩ := List.findIdx?_eq_some_iff_getElem.mp chosen
        cases connection : s.connections[i] with
        | mk a protocol =>
        rw [connection] at able
        have at_i : s.connections[i]? = some ⟨a, protocol⟩ := by
          rw [List.getElem?_eq_getElem lt, connection]
        have last := rotate_last at_i
        generalize s.connections.drop (i + 1) ++ s.connections.take i = before at last
        have length : (rotate i s).connections.length - 1 = before.length := by simp [last]
        have at_last : (rotate i s).connections[before.length]? = some ⟨a, protocol⟩ := by
          simp [last]
        simp only [chosen, length, at_last, Option.bind_eq_bind, Option.bind_some] at send
        cases protocol with
        | gpip g =>
            exact .gpip i before a g rst chosen last (sendGpIp_last send last)
        | http c => exact .http i before a c rst chosen able last (sendHttp_serves send last)
  · rw [if_pos rst, Option.some.injEq] at send
    exact .reset rst send.symm

end Smews.Output
