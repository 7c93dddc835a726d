import Smews.Output.Multicast

/-! What is pending in the server: a bound on the calls of `smews_send` that emit a packet, as long
as the window of a connection takes what is emitted on it.
-/

namespace Smews.Output

open Smews.Core

variable {p : Program}

--------------------------------------------------
-- The pending reset
--------------------------------------------------

section Reset

theorem contextBackup_rst (a addr : Addr) (seqno : UInt32) (header : ServiceHeader) (s : Server)
    : (contextBackup p a addr seqno header s).2.rstConnection = s.rstConnection := by
  unfold contextBackup
  dsimp only
  split
  · rfl
  · split_ifs <;> rfl

theorem prepareRecord_rst (a : Addr) (seqno : UInt32) (buffer : Addr) (s : Server)
    : (prepareRecord p a seqno buffer s).state.rstConnection = s.rstConnection := by
  unfold prepareRecord
  dsimp only
  split
  · rfl
  · rename_i addr heap _
    have backup := contextBackup_rst (p := p) a addr seqno s.currOutput.serviceHeader
      { s with heap }
    split_ifs
    · rfl
    · split <;> rename_i eq <;> rw [eq] at backup <;> exact backup

theorem runGenerator_rst {i : Nat} {a : Addr} {c : HttpConnection} {buffer : Addr} {s s' : Server}
    {ended : Bool} (run : runGenerator p i a c buffer s = some (ended, s'))
    : s'.rstConnection = s.rstConnection := by
  unfold runGenerator at run
  rw [Option.bind_eq_bind, Option.bind_eq_some_iff] at run
  obtain ⟨⟨⟨frame, bytes⟩, heap⟩, -, rest⟩ := run
  dsimp only at rest
  split at rest <;> simp only [Option.some.injEq, Prod.mk.injEq] at rest <;> rw [← rest.2]
  · rfl
  · unfold cleanPostData
    split <;> rfl

theorem setupSegment_rst (a : Addr) (seqno : UInt32) (retransmitting : Bool) (s : Server)
    : (setupSegment a seqno retransmitting s).rstConnection = s.rstConnection := by
  unfold setupSegment setupHeader contextRestore
  cases retransmitting with
  | false => rfl
  | true =>
      cases found : ifSelect (s.service a) seqno with
      | none => simp [Server.setOutput]
      | some r => cases infos : r.infos <;> simp [infos, Server.setOutput]

theorem recordBuffer_rst (a addr : Addr) (seqno : UInt32) (buffer : Addr) (s : Server)
    : (recordBuffer a addr seqno buffer s).rstConnection = s.rstConnection := by
  unfold recordBuffer
  dsimp only
  split <;> rfl

theorem generate_rst {i : Nat} {a : Addr} {c : HttpConnection} {retransmitting : Bool} {s : Server}
    {progress : Progress Bool} (step : generate p i a c retransmitting s = some progress)
    : progress.state.rstConnection = s.rstConnection := by
  have set := setupSegment_rst a c.nextOutseqno retransmitting s
  unfold generate at step
  dsimp only at step
  generalize setupSegment a c.nextOutseqno retransmitting s = t at step set
  rw [← set]
  split_ifs at step
  · simp only [Option.some.injEq] at step
    subst step
    rfl
  · unfold regenerate at step
    split at step
    · simp only [Option.some.injEq] at step
      subst step
      rfl
    · rw [Option.map_eq_some_iff] at step
      obtain ⟨⟨ended, u⟩, run, rfl⟩ := step
      have same := runGenerator_rst run
      exact same
  · unfold generateNew at step
    split at step
    · simp only [Option.some.injEq] at step
      subst step
      rfl
    · rename_i buffer heap _
      have prepared := prepareRecord_rst (p := p) a c.nextOutseqno buffer { t with heap }
      split at step <;> rename_i eq <;> rw [eq] at prepared
      · simp only [Option.some.injEq] at step
        subst step
        exact prepared
      · rw [Option.map_eq_some_iff] at step
        obtain ⟨⟨ended, u⟩, run, rfl⟩ := step
        exact (recordBuffer_rst ..).trans ((runGenerator_rst run).trans prepared)

theorem prepareSegment_rst {i : Nat} {a : Addr} {c : HttpConnection} {h : HandlerRef} {s : Server}
    {progress : Progress Bool} (step : prepareSegment p i a c h s = some progress)
    : progress.state.rstConnection = s.rstConnection := by
  unfold prepareSegment at step
  dsimp only at step
  split at step
  · simp only [Option.some.injEq] at step
    subst step
    rfl
  · rw [Option.map_eq_some_iff] at step
    obtain ⟨generated, segment, rfl⟩ := step
    have same : generated.state.rstConnection = s.rstConnection := by
      unfold nextSegment at segment
      split at segment
      · rw [Option.map_eq_some_iff] at segment
        obtain ⟨v, again, rfl⟩ := segment
        unfold resend at again
        rw [Option.bind_eq_bind, Option.bind_eq_some_iff] at again
        obtain ⟨r, -, stored⟩ := again
        split at stored
        · cases stored
        · simp only [Option.some.injEq] at stored
          subst stored
          rfl
      · have same := generate_rst segment
        exact same
    cases generated <;> exact same

theorem openService_rst (i : Nat) (c : HttpConnection) (h : HandlerRef) (resource : DynamicResource)
    (s : Server)
    : (openService p i c h resource s).2.rstConnection = s.rstConnection := by
  unfold openService createService initService
  dsimp only
  repeat' split
  all_goals rfl

theorem sendPacket_rst {i : Nat} {s s' : Server} (send : sendPacket p i s = some s')
    : s'.rstConnection = s.rstConnection := by
  obtain ⟨_, _, _, _, _, _, _, rfl⟩ := sendPacket_spec send
  rfl

theorem multicastTo_rst {h : HandlerRef} {ended : Bool} {j : Nat} {s s' : Server}
    (send : multicastTo p h ended j s = some s')
    : s'.rstConnection = s.rstConnection := by
  unfold multicastTo at send
  rw [Option.bind_eq_bind, Option.bind_eq_some_iff] at send
  obtain ⟨connection, -, send⟩ := send
  split at send
  · rw [Option.some.inj send]
  · split at send
    · split at send
      · rw [Option.bind_eq_some_iff] at send
        obtain ⟨t, first, last⟩ := send
        have before : t.rstConnection = s.rstConnection := by
          split_ifs at first
          · exact sendPacket_rst first
          · rw [Option.some.inj first]
        unfold endStream at last
        split_ifs at last
        · rw [Option.map_eq_some_iff] at last
          obtain ⟨c, -, rfl⟩ := last
          exact before
        · rw [← Option.some.inj last, before]
      · exact sendPacket_rst send
    · rw [Option.some.inj send]

theorem emit_rst {i : Nat} {h : HandlerRef} {ended : Bool} {s s' : Server}
    (send : emit p i h ended s = some s')
    : s'.rstConnection = s.rstConnection := by
  unfold emit at send
  split_ifs at send
  · generalize List.range s.connections.length = js at send
    induction js generalizing s with
    | nil =>
        simp only [List.foldlM_nil, Option.pure_def, Option.some.injEq] at send
        rw [send]
    | cons j js ih =>
        rw [List.foldlM_cons, Option.bind_eq_bind, Option.bind_eq_some_iff] at send
        obtain ⟨t, first, rest⟩ := send
        exact (ih rest).trans (multicastTo_rst first)
  · exact sendPacket_rst send

theorem concludeSegment_rst {i : Nat} {a : Addr} {h : HandlerRef} {retransmitting ended : Bool}
    {s s' : Server} (step : concludeSegment p i a h retransmitting ended s = some s')
    : s'.rstConnection = s.rstConnection := by
  unfold concludeSegment at step
  dsimp only at step
  rw [Option.bind_eq_bind, Option.bind_eq_some_iff] at step
  obtain ⟨c, -, rest⟩ := step
  split at rest <;> simp only [Option.some.injEq] at rest <;> subst rest <;>
    (repeat' split) <;> rfl

theorem freeConnection_rst {i : Nat} {s s' : Server} (free : s.freeConnection p i = some s')
    : s'.rstConnection = s.rstConnection := by
  unfold Server.freeConnection at free
  rw [Option.bind_eq_bind, Option.bind_eq_some_iff] at free
  obtain ⟨connection, -, free⟩ := free
  dsimp only at free
  split at free
  · rw [← Option.some.inj free]
  · rw [Option.bind_eq_bind, Option.bind_eq_some_iff] at free
    obtain ⟨heap, -, free⟩ := free
    rw [← Option.some.inj free]
    unfold Server.freeService
    dsimp only
    split <;> rfl

theorem sendControl_rst {i : Nat} {old : Option HandlerRef} {s s' : Server}
    (send : sendControl p i old s = some s')
    : s'.rstConnection = s.rstConnection := by
  unfold sendControl at send
  rw [Option.bind_eq_bind, Option.bind_eq_some_iff] at send
  obtain ⟨t, packet, send⟩ := send
  rw [Option.bind_eq_bind, Option.bind_eq_some_iff] at send
  obtain ⟨c, -, send⟩ := send
  have before := sendPacket_rst packet
  dsimp only at send
  split at send
  · exact (freeConnection_rst send).trans before
  · split at send
    · rw [← Option.some.inj send, ← before]
      rfl
    · split at send <;> rw [← Option.some.inj send, ← before] <;> rfl

theorem sendGenerator_rst {i : Nat} {h : HandlerRef} {resource : DynamicResource} {s s' : Server}
    (send : sendGenerator p i h resource s = some s')
    : s'.rstConnection = s.rstConnection := by
  cases here : s.http i with
  | none => simp [sendGenerator, here] at send
  | some c =>
      rw [sendGenerator_eq here] at send
      have opening := openService_rst (p := p) i c h resource s
      cases opened : openService p i c h resource s with
      | mk service t =>
      rw [opened] at send opening
      cases service with
      | none => rw [← Option.some.inj send, ← opening]
      | some a =>
          dsimp only at send opening
          cases here' : t.http i with
          | none => simp [sendService, here'] at send
          | some c' =>
              rw [sendService_eq here', Option.bind_eq_some_iff] at send
              obtain ⟨progress, prepared, send⟩ := send
              have preparing := prepareSegment_rst prepared
              cases progress with
              | stop u => rw [← Option.some.inj send, ← opening, ← preparing]; rfl
              | go ended u =>
                  dsimp only at send
                  rw [Option.bind_eq_some_iff] at send
                  obtain ⟨v, emitted, concluded⟩ := send
                  rw [concludeSegment_rst concluded, emit_rst emitted, ← opening, ← preparing]
                  rfl

/-- A call of `smews_send` that sends no reset leaves a reset alone. -/
theorem smewsSend_rst {s s' : Server} (send : smewsSend p s = some s')
    (clear : s.rstConnection.port = 0)
    : s'.rstConnection = s.rstConnection := by
  unfold smewsSend at send
  rw [if_neg (not_not.mpr clear)] at send
  split at send
  · rw [Option.some.inj send]
  · rename_i i _
    dsimp only at send
    rw [Option.bind_eq_bind, Option.bind_eq_some_iff] at send
    obtain ⟨connection, -, send⟩ := send
    split at send
    · unfold sendGpIp at send
      split at send
      · dsimp only at send
        rw [Option.bind_eq_bind, Option.bind_eq_some_iff] at send
        obtain ⟨k, -, free⟩ := send
        rw [freeConnection_rst free]
        rfl
      · cases send
    · unfold sendHttp at send
      rw [Option.bind_eq_bind, Option.bind_eq_some_iff] at send
      obtain ⟨c, -, send⟩ := send
      split at send
      · rw [sendControl_rst send]
        rfl
      · rw [Option.bind_eq_bind, Option.bind_eq_some_iff] at send
        obtain ⟨h, -, send⟩ := send
        split at send
        · exact (sendControl_rst send).trans rfl
        · exact (sendPacket_rst send).trans rfl
        · exact (sendGenerator_rst send).trans rfl
        · cases send

end Reset

--------------------------------------------------
-- Room in the windows
--------------------------------------------------

/-- How much the counter of the bytes in flight can still count. -/
def roomOf (c : HttpConnection) : UInt16 := 0xffff - c.inflight

/-- The room of a connection, if the segment of a handler goes to it. -/
def listenerRoom (p : Program) (h : HandlerRef) (k : Connection) : Option UInt16 :=
  match k.protocol with
  | .http c => if listensNow p h k then some (roomOf c) else none
  | .gpip _ => none

/-- The room of each connection that the segment of a handler goes to. -/
def rooms (p : Program) (s : Server) (h : HandlerRef) (c : HttpConnection) : List UInt16 :=
  if (p.handler h).handlerComet then s.connections.filterMap (listenerRoom p h) else [roomOf c]

/-- What a generation from a context needs to fit; only the void chunk follows a context that has
terminated.
-/
def GenerationRoom (p : Program) (s : Server) (func : CrFunc) (status : CrStatus) (mss : UInt16)
    (target : List UInt16) (stream : Bool) (reserved header : ServiceHeader)
    : Prop :=
  GenerationFits p s func status mss target stream reserved header
    ∨ (status = .terminated ∧ Fits p target stream header true 0)

/-- What the next segment of a service needs to fit. -/
def SegmentRoom (p : Program) (s : Server) (a : Addr) (h : HandlerRef) (c : HttpConnection)
    (limit : ServiceHeader) (target : List UInt16)
    : Prop :=
  let stream := (p.handler h).handlerStream
  let retransmitting := c.nextOutseqno != (s.service a).currOutseqno
  if (s.service a).isPersistent && retransmitting then
    ∀ r ∈ ifSelect (s.service a) c.nextOutseqno,
      Fits p target stream r.serviceHeader false s.currOutput.contentLength.toNat
  else
    GenerationRoom p s (s.heap.coroutine (.service a)).func
      (statusBefore s a c.nextOutseqno retransmitting) c.tcpMss target stream limit
      (headerBefore s a c.nextOutseqno retransmitting)

/-- What the next segment of a connection with a generator needs, so that no counter of the bytes
in flight overflows.
-/
def HandlerRoom (p : Program) (s : Server) (h : HandlerRef) (c : HttpConnection) : Prop :=
  let stream := (p.handler h).handlerStream
  (c.generatorService = none
      → GenerationRoom p s (serviceFunc s c h) .ready c.tcpMss [roomOf c] stream .chunks
        (if stream && c.cometStreaming then .none else .standard))
    ∧ ∀ a ∈ c.generatorService, SegmentRoom p s a h c .none (rooms p s h c)

section Room

variable {h : HandlerRef} {c : HttpConnection} {s s' : Server}

theorem mem_rooms {room : UInt16}
    : room ∈ rooms p s h c ↔
      if (p.handler h).handlerComet then ∃ k ∈ s.connections, listenerRoom p h k = some room
      else room = roomOf c := by
  unfold rooms
  split_ifs
  · exact List.mem_filterMap
  · exact List.mem_singleton

/-- A connection when its service was just created. -/
def withService (p : Program) (a : Addr) (h : HandlerRef) (c : HttpConnection) : HttpConnection :=
  {
    c with
    generatorService := some a
    finalOutseqno := c.nextOutseqno - 1
    cometStreaming := (p.handler h).handlerStream || c.cometStreaming
  }

theorem initService_connections (i : Nat) (a : Addr) (resource : DynamicResource)
    : (initService p i c h resource a s).connections
      = if (p.handler h).handlerComet then
          (markPassive i h (s.setHttp i (withService p a h c))).connections
        else (s.setHttp i (withService p a h c)).connections := by
  unfold initService
  dsimp only
  by_cases comet : (p.handler h).handlerComet
  · simp only [if_pos comet]
    rfl
  · simp only [if_neg comet]
    rfl

/-- Only a connection that begins a comet response is listening then. -/
theorem listenerRoom_markPassive {i : Nat} {room : UInt16} {k : Connection}
    (mem : k ∈ (markPassive i h s).connections) (listens : listenerRoom p h k = some room)
    (here : s.http i = some c)
    : room = roomOf c := by
  obtain ⟨addr, at_i⟩ := http_eq here
  obtain ⟨j, at_j⟩ := List.mem_iff_getElem?.mp mem
  simp only [markPassive, List.getElem?_map, List.getElem?_zipIdx, Option.map_map,
    Option.map_eq_some_iff, Function.comp_apply] at at_j
  obtain ⟨⟨addr', protocol⟩, at_j', rfl⟩ := at_j
  cases protocol with
  | gpip g => cases listens
  | http d =>
      simp only [Nat.zero_add] at listens
      by_cases own : d.outputHandler = some h
      · rw [if_pos own] at listens
        by_cases hj : j = i
        · subst hj
          rw [at_i] at at_j'
          cases at_j'
          simp only [listenerRoom, Option.ite_none_right_eq_some, Option.some.injEq] at listens
          exact listens.2.symm
        · simp [listenerRoom, listensNow, Connection.ableToSend, hj] at listens
      · rw [if_neg own] at listens
        simp [listenerRoom, listensNow, own] at listens

/-- The rooms depend on what the connections are seen to have. -/
theorem rooms_of_map {c' : HttpConnection} {room : UInt16}
    (same : s'.connections.map (listenerRoom p h) = s.connections.map (listenerRoom p h))
    (own : roomOf c' = roomOf c) (mem : room ∈ rooms p s' h c')
    : room ∈ rooms p s h c := by
  rw [mem_rooms] at *
  split_ifs at *
  · rwa [← List.mem_map, ← same, List.mem_map]
  · exact mem.trans own

/-- Only the void chunk follows a generator that has terminated. -/
theorem generate_terminated {i : Nat} {a : Addr} {t : Server} {retransmitting ended : Bool}
    (step : generate p i a c retransmitting s = some (.go ended t))
    (terminated : statusBefore s a c.nextOutseqno retransmitting = .terminated)
    : ended = true ∧ t.currOutput.contentLength = 0
      ∧ t.currOutput.serviceHeader = headerBefore s a c.nextOutseqno retransmitting := by
  have setUp := setupSegment_spec s a c.nextOutseqno retransmitting
  unfold generate at step
  dsimp only at step
  rw [if_pos (setUp.status.trans terminated)] at step
  simp only [Option.some.injEq, Progress.go.injEq] at step
  obtain ⟨rfl, rfl⟩ := step
  rw [setUp.output]
  exact ⟨rfl, rfl, rfl⟩

/-- A segment that is prepared leaves room, with its header, for what may be in flight. -/
theorem prepareSegment_room {i : Nat} {a : Addr} {t : Server} {ended : Bool} {limit : ServiceHeader}
    {target : List UInt16} (step : prepareSegment p i a c h s = some (.go ended t))
    (here : s.http i = some c) (reserved : s.currOutput.maxBytes = maxBytes p c.tcpMss limit)
    (room : SegmentRoom p s a h c limit target)
    : ∀ r ∈ target, t.currOutput.contentLength.toNat + serviceHeadersSize t.currOutput.serviceHeader
      ≤ r.toNat := by
  unfold prepareSegment at step
  set s1 := s.setOutput { s.currOutput with service := some a, nextOutseqno := c.nextOutseqno }
  obtain ⟨func, status⟩ := s1.heap.crPrepare_coroutine (.service a)
  have chars := s1.heap.crPrepare_chars (.service a)
  have starts := s1.heap.crPrepare_starts (.service a)
  cases prepared : s1.heap.crPrepare (.service a) with
  | mk done heap =>
  rw [prepared] at func status chars starts
  simp only [prepared] at step
  cases done with
  | false => cases step
  | true =>
      dsimp only at step
      rw [Option.map_eq_some_iff] at step
      obtain ⟨progress, segment, eq⟩ := step
      cases progress with
      | stop u => cases eq
      | go ended' u =>
          simp only [Progress.go.injEq] at eq
          obtain ⟨rfl, rfl⟩ := eq
          suffices fits : Fits p target (p.handler h).handlerStream u.currOutput.serviceHeader
              ended' u.currOutput.contentLength.toNat from fits.2
          unfold SegmentRoom at room
          unfold nextSegment at segment
          dsimp only at room
          by_cases again : (s.service a).isPersistent && (c.nextOutseqno != (s.service a).currOutseqno)
          · rw [if_pos again] at room
            rw [if_pos (by exact again), Option.map_eq_some_iff] at segment
            obtain ⟨v, resent, eq⟩ := segment
            simp only [Progress.go.injEq] at eq
            obtain ⟨rfl, rfl⟩ := eq
            unfold resend at resent
            rw [Option.bind_eq_bind, Option.bind_eq_some_iff] at resent
            obtain ⟨r, found, stored⟩ := resent
            split at stored
            · cases stored
            · simp only [Option.some.injEq] at stored
              subst stored
              exact room r found
          · rw [if_neg again] at room
            rw [if_neg (by exact again)] at segment
            have same : statusBefore { s1 with heap } a c.nextOutseqno
                (c.nextOutseqno != (s.service a).currOutseqno)
                = statusBefore s a c.nextOutseqno
                  (c.nextOutseqno != (s.service a).currOutseqno) := by
              unfold statusBefore
              dsimp only
              rw [status]
              rfl
            rcases room with fits | ⟨terminated, fits⟩
            · have fits' : GenerationFits p { s1 with heap } _ _ _ _ _ _ _ :=
                fits.of_targets (fun _ mem => mem) chars starts
              rw [← same] at fits'
              have func' : (({ s1 with heap } : Server).heap.coroutine (.service a)).func
                  = (s.heap.coroutine (.service a)).func := func
              rw [← func'] at fits'
              obtain ⟨-, allowed, header⟩ := generate_spec segment here
                (fits'.stores (a := a) reserved) fun _ _ allowed => allowed.1
              rw [header]
              exact allowed
            · obtain ⟨rfl, empty, header⟩ := generate_terminated segment (same.trans terminated)
              rw [empty, header]
              exact fits

/-- A service that is opened has the room that its connection needs. -/
theorem openService_room {i : Nat} {a : Addr} {resource : DynamicResource} {t : Server}
    (opened : openService p i c h resource s = (some a, t)) (here : s.http i = some c)
    (handler : c.outputHandler = some h) (room : HandlerRoom p s h c)
    : ∃ limit target c', t.http i = some c' ∧ c'.outputHandler = some h
      ∧ t.currOutput.maxBytes = maxBytes p c'.tcpMss limit ∧ SegmentRoom p t a h c' limit target
      ∧ ∀ r ∈ rooms p t h c', r ∈ target := by
  unfold openService at opened
  dsimp only at opened
  cases service : c.generatorService with
  | some b =>
      simp only [service, Prod.mk.injEq, Option.some.injEq] at opened
      obtain ⟨rfl, rfl⟩ := opened
      exact ⟨.none, rooms p s h c, c, here, handler, rfl, room.2 b service, fun _ mem => mem⟩
  | none =>
      simp only [service] at opened
      have created := createService_spec opened here
      obtain ⟨c', here', next, handler', mss, cwnd, inflight⟩ := created.http
      have same : roomOf c' = roomOf c := by rw [roomOf, inflight]; rfl
      refine ⟨.chunks, [roomOf c], c', here', handler'.trans handler, ?_, ?_, fun r mem => ?_⟩
      · rw [created.maxBytes, mss]
      · have generation := room.1 service
        unfold SegmentRoom
        simp only [next, created.next, bne_self_eq_false, Bool.and_false, Bool.false_eq_true,
          if_false, mss, statusBefore, headerBefore, created.func, created.status, created.header]
        rcases generation with fits | ⟨terminated, -⟩
        · exact .inl (fits.of_targets (fun _ mem => mem) created.chars created.starts)
        · cases terminated
      · rw [mem_rooms] at mem
        rw [List.mem_singleton]
        split_ifs at mem with comet
        · obtain ⟨k, mem, listens⟩ := mem
          unfold createService at opened
          split at opened
          · cases opened
          · simp only [Prod.mk.injEq, Option.some.injEq] at opened
            obtain ⟨rfl, rfl⟩ := opened
            rw [initService_connections, if_pos comet] at mem
            have own := listenerRoom_markPassive mem listens (setHttp_http (c := c) (by exact here))
            exact own
        · rw [mem, same]

end Room

--------------------------------------------------
-- What is pending
--------------------------------------------------

/-- A bound on the packets that a connection may be sent: one for its control packet or for a
request to acknowledge, and as many as there is room for.
-/
def pending (p : Program) (k : Connection) : Nat :=
  match k.protocol with
  | .gpip _ => 1
  | .http c =>
      1 + (if c.outputHandler.any p.isControl then 1 else 0) + (if c.cometSendAck then 1 else 0)
        + (roomOf c).toNat

/-- The same for the server. -/
def pendingAll (p : Program) (s : Server) : Nat :=
  (if s.rstConnection.port ≠ 0 then 1 else 0) + (s.connections.map (pending p)).sum

section Pending

variable {h : HandlerRef} {c : HttpConnection} {s s' : Server}

theorem roomOf_toNat (c : HttpConnection) : (roomOf c).toNat = 65535 - c.inflight.toNat := by
  have := c.inflight.toNat_lt
  rw [roomOf, UInt16.toNat_sub]
  simp only [UInt16.reduceToNat]
  omega

/-- The room that is used up no longer counts. -/
theorem pending_of_room {a : Addr} {c' : HttpConnection} {n : Nat}
    (handler : c'.outputHandler = c.outputHandler) (noAck : c'.cometSendAck = c.cometSendAck)
    (room : (roomOf c').toNat + n ≤ (roomOf c).toNat)
    : pending p ⟨a, .http c'⟩ + n ≤ pending p ⟨a, .http c⟩ := by
  simp only [pending, handler, noAck]
  omega

/-- A segment that finds room uses at least one byte of it up. -/
theorem roomOf_advance {t : Server} {n : Nat} (data : isSyn p h = false)
    (positive : 0 < n) (room : n ≤ (roomOf c).toNat)
    : (roomOf (advance p t c h n)).toNat + 1 ≤ (roomOf c).toNat := by
  have inflight : (advance p t c h n).inflight = c.inflight + UInt16.ofNat n := by
    unfold advance
    simp only [data, Bool.false_eq_true, if_false]
    split
    · split <;> rfl
    · rfl
  rw [roomOf_toNat] at *
  rw [roomOf_toNat, inflight, UInt16.toNat_add, UInt16.toNat_ofNat']
  have := c.inflight.toNat_lt
  omega

/-- A packet without data leaves the room as it is. -/
theorem roomOf_advance_zero (t : Server) (c : HttpConnection) (h : HandlerRef)
    : roomOf (advance p t c h 0) = roomOf c := by
  unfold advance roomOf
  dsimp only
  split
  · rfl
  · split
    · split <;> simp
    · simp

/-- The pending packets of a connection after a segment of data. -/
theorem pending_advance {t : Server} {n : Nat} (a : Addr) (time : UInt8)
    (data : isSyn p h = false) (positive : 0 < n) (room : n ≤ (roomOf c).toNat)
    : pending p ⟨a, .http { advance p t c h n with transmissionTime := time }⟩ + 1
      ≤ pending p ⟨a, .http c⟩ := by
  obtain ⟨-, -, -, -, handler, noAck⟩ := advance_frame (p := p) (t := t) c h n
  have less : (roomOf { advance p t c h n with transmissionTime := time }).toNat + 1
      ≤ (roomOf c).toNat := roomOf_advance data positive room
  exact pending_of_room handler noAck less

theorem isSyn_generator {resource : DynamicResource}
    (generator : (p.handler h).data = .generator resource)
    : isSyn p h = false := by
  simp only [isSyn, getFlags, generator]
  decide

/-- The payload of a segment has its header at least. -/
theorem length_currPayload (s : Server)
    : 0 < (currPayload s).length
      ∧ (currPayload s).length
        ≤ s.currOutput.contentLength.toNat + serviceHeadersSize s.currOutput.serviceHeader := by
  have size : 0 < serviceHeadersSize s.currOutput.serviceHeader := by
    cases s.currOutput.serviceHeader <;> decide
  have content : (currContent s).length ≤ s.currOutput.contentLength.toNat := by
    cases buffer : s.currOutput.buffer <;> simp [currContent, buffer]
  rw [currPayload, length_generatorPayload]
  omega

/-- A listener pays for the packet that it is sent. -/
theorem pending_afterMulticast {resource : DynamicResource} (ended : Bool) {k : Connection}
    (generator : (p.handler h).data = .generator resource)
    (room : ∀ r, listenerRoom p h k = some r → (currPayload s).length ≤ r.toNat)
    : pending p (afterMulticast p s h ended k) + (multicastPackets p s h k).length
      ≤ pending p k := by
  obtain ⟨a, protocol⟩ := k
  cases protocol with
  | gpip g => exact le_rfl
  | http c =>
      by_cases listens : listensNow p h ⟨a, .http c⟩
      · have fits := room (roomOf c) (by simp [listenerRoom, listens])
        have paid : pending p ⟨a, .http (emitted p s h c)⟩ + 1 ≤ pending p ⟨a, .http c⟩ :=
          pending_advance a _ (isSyn_generator generator) (length_currPayload s).1 fits
        simp only [afterMulticast, multicastPackets, listens, if_true, Bool.true_and]
        cases segment : hasSegment p s h
        · rw [if_neg Bool.false_ne_true, if_neg Bool.false_ne_true, List.length_nil, Nat.add_zero]
          split <;> exact le_rfl
        · rw [if_pos rfl, if_pos rfl, List.length_singleton]
          split <;> exact paid
      · simp [afterMulticast, multicastPackets, listens]

/-- The listeners pay for all the packets of a comet segment, by induction on the ring. -/
theorem pending_multicast {resource : DynamicResource} {ended : Bool} (ring : List Connection)
    (generator : (p.handler h).data = .generator resource)
    (room : ∀ k ∈ ring, ∀ r, listenerRoom p h k = some r → (currPayload s).length ≤ r.toNat)
    : ((ring.map (afterMulticast p s h ended)).map (pending p)).sum
        + (ring.flatMap (multicastPackets p s h)).length
      ≤ (ring.map (pending p)).sum := by
  induction ring with
  | nil => exact le_rfl
  | cons k ring ih =>
      have first := pending_afterMulticast ended generator (room k (by simp))
      have rest := ih fun k' mem => room k' (List.mem_cons_of_mem _ mem)
      simp only [List.map_cons, List.sum_cons, List.flatMap_cons, List.length_append]
      omega

/-- A change of one member of a list that frees some of its weight, by induction on the list. -/
theorem sum_modify_le {α : Type} {w : α → Nat} {f : α → α} {k : α} {n : Nat} {ks : List α} {i : Nat}
    (at_i : ks[i]? = some k) (paid : w (f k) + n ≤ w k)
    : ((ks.modify i f).map w).sum + n ≤ (ks.map w).sum := by
  induction ks generalizing i with
  | nil => cases at_i
  | cons k' ks ih =>
      cases i with
      | zero =>
          simp only [List.getElem?_cons_zero, Option.some.injEq] at at_i
          subst at_i
          simp only [List.modify_zero_cons, List.map_cons, List.sum_cons]
          omega
      | succ i =>
          have rest := ih (i := i) at_i
          simp only [List.modify_succ_cons, List.map_cons, List.sum_cons]
          omega

/-- The new packets were paid for by what was pending. -/
def Pays (p : Program) (s s' : Server) : Prop :=
  pendingAll p s' + s'.sent.length ≤ pendingAll p s + s.sent.length

theorem Pays.trans {s s' s'' : Server} (first : Pays p s s') (second : Pays p s' s'')
    : Pays p s s'' :=
  Nat.le_trans second first

theorem Pays.of_eq (rst : s'.rstConnection = s.rstConnection)
    (same : s'.connections.map (pending p) = s.connections.map (pending p)) (sent : s'.sent = s.sent)
    : Pays p s s' := by
  rw [Pays, pendingAll, pendingAll, rst, same, sent]

theorem Pays.of_sum {new : List (Option Addr × Packet)} (rst : s'.rstConnection = s.rstConnection)
    (sent : s'.sent = s.sent ++ new)
    (paid : (s'.connections.map (pending p)).sum + new.length
      ≤ (s.connections.map (pending p)).sum)
    : Pays p s s' := by
  rw [Pays, pendingAll, pendingAll, rst, sent, List.length_append]
  omega

theorem openService_pays {i : Nat} (resource : DynamicResource) (here : s.http i = some c)
    : Pays p s (openService p i c h resource s).2 := by
  refine .of_eq (openService_rst ..) ?_ ?_
  · unfold openService createService
    dsimp only
    split
    · rfl
    · split
      · rfl
      · dsimp only
        rw [initService_connections]
        have stored (a : Addr) : (s.setHttp i (withService p a h c)).connections.map (pending p)
            = s.connections.map (pending p) :=
          map_setHttp (pending p) here fun _ => rfl
        split
        · exact (map_markPassive (pending p) i h _ fun _ _ _ => rfl).trans (stored _)
        · exact stored _
  · unfold openService createService initService
    dsimp only
    repeat' split
    all_goals rfl

theorem prepareSegment_pays {i : Nat} {a : Addr} {progress : Progress Bool}
    (step : prepareSegment p i a c h s = some progress) (here : s.http i = some c)
    : Pays p s progress.state := by
  obtain ⟨request, -, ring, sent⟩ := prepareSegment_ring step here
  exact .of_eq (prepareSegment_rst step) (by rw [ring]; exact map_setHttp _ here fun _ => rfl) sent

/-- The segment of a generator is paid for by the connections that it goes to. -/
theorem emit_pays {i : Nat} {resource : DynamicResource} {ended : Bool}
    (send : emit p i h ended s = some s') (generator : (p.handler h).data = .generator resource)
    (here : s.http i = some c) (handler : c.outputHandler = some h)
    (room : ∀ r ∈ rooms p s h c, (currPayload s).length ≤ r.toNat)
    : Pays p s s' := by
  have rst := emit_rst send
  simp only [mem_rooms] at room
  by_cases comet : (p.handler h).handlerComet
  · simp only [comet, if_true] at room
    obtain ⟨-, ring, sent⟩ := emit_comet send generator comet
    refine .of_sum rst sent ?_
    rw [ring]
    exact pending_multicast s.connections generator fun k mem r listens => room r ⟨k, mem, listens⟩
  · simp only [comet, if_false, Bool.false_eq_true, forall_eq] at room
    rw [emit, if_neg comet] at send
    obtain ⟨a, at_i⟩ := http_eq here
    have result := sendPacket_generator send generator at_i handler
    subst result
    refine .of_sum rst rfl ?_
    exact sum_modify_le at_i
      (pending_advance a _ (isSyn_generator generator) (length_currPayload s).1 room)

theorem concludeSegment_pays {i : Nat} {a : Addr} {retransmitting ended : Bool}
    (step : concludeSegment p i a h retransmitting ended s = some s') (here : s.http i = some c)
    : Pays p s s' := by
  obtain ⟨sent, service, ring⟩ := concludeSegment_ring step here
  exact .of_eq (concludeSegment_rst step) (by rw [ring]; exact map_setHttp _ here fun _ => rfl) sent

/-- The call for a generator with room for its segment. -/
theorem sendGenerator_pays {i : Nat} {resource : DynamicResource}
    (send : sendGenerator p i h resource s = some s')
    (generator : (p.handler h).data = .generator resource) (here : s.http i = some c)
    (handler : c.outputHandler = some h) (room : HandlerRoom p s h c)
    : Pays p s s' := by
  rw [sendGenerator_eq here] at send
  have opening := openService_pays (p := p) (h := h) resource here
  cases opened : openService p i c h resource s with
  | mk service t =>
  rw [opened] at send opening
  cases service with
  | none =>
      simp only [Option.some.injEq] at send
      exact send ▸ opening
  | some a =>
      obtain ⟨limit, target, c', here', handler', reserved, fits, within⟩ :=
        openService_room opened here handler room
      dsimp only at send opening
      rw [sendService_eq here', Option.bind_eq_some_iff] at send
      obtain ⟨progress, prepared, send⟩ := send
      have preparing := prepareSegment_pays prepared here'
      obtain ⟨request, -, ring, -⟩ := prepareSegment_ring prepared here'
      cases progress with
      | stop u =>
          simp only [Option.some.injEq] at send
          exact send ▸ opening.trans preparing
      | go ended u =>
          dsimp only [Progress.state] at send preparing ring
          rw [Option.bind_eq_some_iff] at send
          obtain ⟨v, emitted, concluded⟩ := send
          have fits := prepareSegment_room prepared here' reserved fits
          have here_u : u.http i = some { c' with request } := by
            rw [http_of_connections ring]
            exact setHttp_http here'
          have same : u.connections.map (listenerRoom p h) = t.connections.map (listenerRoom p h) := by
            rw [ring]
            exact map_setHttp (listenerRoom p h) here' fun _ => rfl
          have emitting := emit_pays emitted generator here_u handler' fun r mem =>
            (length_currPayload u).2.trans (fits r (within r (rooms_of_map same rfl mem)))
          obtain ⟨d, here_v, -⟩ := (emit_served emitted generator here_u handler').http here_u
          exact ((opening.trans preparing).trans emitting).trans
            (concludeSegment_pays concluded here_v)

end Pending

--------------------------------------------------
-- One call
--------------------------------------------------

/-- What a call of `smews_send` for a connection needs so that something pending gets done: an
acknowledgement does not leave the connection as it was, a segment of a file is not empty, and a
segment of a generator has room.
-/
def ConnectionProgress (p : Program) (s : Server) (c : HttpConnection) : Prop :=
  (c.request.readyToSend ∨ c.tcpState = .closing)
    ∧ (c.request.readyToSend → ¬ c.cometSendAck → ∀ h ∈ c.outputHandler,
      match (p.handler h).data with
      | .file _ => 0 < p.maxOutSize c.tcpMss
      | .generator _ => HandlerRoom p s h c
      | _ => True)

/-- What a call of `smews_send` needs so that something pending gets done, about the connection
that it chooses.
-/
def SendProgress (p : Program) (s : Server) : Prop :=
  s.rstConnection.port = 0 → ∀ i ∈ s.connections.findIdx? (·.ableToSend p),
    ∀ c ∈ s.http i, ConnectionProgress p s c

section Decidable

variable (p)

instance (s : Server) (func : CrFunc) (status : CrStatus) (mss : UInt16) (target : List UInt16)
    (stream : Bool) (reserved header : ServiceHeader)
    : Decidable (GenerationRoom p s func status mss target stream reserved header) :=
  inferInstanceAs (Decidable (_ ∨ _))

instance (s : Server) (a : Addr) (h : HandlerRef) (c : HttpConnection) (limit : ServiceHeader)
    (target : List UInt16)
    : Decidable (SegmentRoom p s a h c limit target) :=
  inferInstanceAs (Decidable (@ite _ _ _ _ _))

instance (s : Server) (h : HandlerRef) (c : HttpConnection) : Decidable (HandlerRoom p s h c) :=
  inferInstanceAs (Decidable (_ ∧ _))

instance (s : Server) (c : HttpConnection) (h : HandlerRef)
    : Decidable (match (p.handler h).data with
      | .file _ => 0 < p.maxOutSize c.tcpMss
      | .generator _ => HandlerRoom p s h c
      | _ => True) :=
  match (p.handler h).data with
  | .file _ => Nat.decLt _ _
  | .generator _ => inferInstance
  | .control _ _ => .isTrue trivial
  | .generalIp _ => .isTrue trivial

instance (s : Server) (c : HttpConnection) : Decidable (ConnectionProgress p s c) :=
  inferInstanceAs (Decidable (_ ∧ _))

instance (s : Server) : Decidable (SendProgress p s) := inferInstanceAs (Decidable (_ → _))

end Decidable

section Call

variable {h : HandlerRef} {c : HttpConnection} {s s' : Server}

/-- Where the ring begins does not matter to the rooms. -/
theorem HandlerRoom.rotate {i : Nat} (room : HandlerRoom p s h c)
    : HandlerRoom p (Output.rotate i s) h c := by
  have target (r : UInt16) (mem : r ∈ rooms p (Output.rotate i s) h c) : r ∈ rooms p s h c := by
    rw [mem_rooms] at *
    simpa only [mem_rotate] using mem
  refine ⟨room.1, fun a service => ?_⟩
  have room := room.2 a service
  unfold SegmentRoom at *
  dsimp only at room ⊢
  by_cases again : (s.service a).isPersistent && (c.nextOutseqno != (s.service a).currOutseqno)
  · rw [if_pos again] at room
    rw [if_pos (by exact again)]
    exact fun r found => (room r found).of_targets target
  · rw [if_neg again] at room
    rw [if_neg (by exact again)]
    rcases room with fits | ⟨terminated, fits⟩
    · exact .inl (fits.of_targets target rfl rfl)
    · exact .inr ⟨terminated, fits.of_targets target⟩

theorem rotate_pays (i : Nat) (s : Server) : Pays p s (rotate i s) := by
  have sum : ((rotate i s).connections.map (pending p)).sum = (s.connections.map (pending p)).sum :=
    ((rotate_perm i s).map (pending p)).sum_nat
  rw [Pays, pendingAll, pendingAll, sum]
  exact le_rfl

/-- A control packet was pending, and is no longer. -/
theorem pending_afterControl (a : Addr) (time : UInt8) (handler : c.outputHandler = some h)
    (control : p.isControl h) (noAck : c.cometSendAck = false)
    : pending p ⟨a, .http (afterControl none { advance p s c h 0 with transmissionTime := time })⟩ + 1
      ≤ pending p ⟨a, .http c⟩ := by
  obtain ⟨-, -, -, -, -, noAck'⟩ := advance_frame (p := p) (t := s) c h 0
  have room : roomOf (afterControl none { advance p s c h 0 with transmissionTime := time })
      = roomOf c := roomOf_advance_zero s c h
  have handler' : (afterControl none
      { advance p s c h 0 with transmissionTime := time }).outputHandler = none := rfl
  have ack : (afterControl none
      { advance p s c h 0 with transmissionTime := time }).cometSendAck = false := noAck'.trans noAck
  simp only [pending, handler, Option.any_some, control, if_true, handler', ack, room, noAck,
    Option.any_none, Bool.false_eq_true, if_false]
  omega

/-- The acknowledgement of a comet request was pending, and is no longer. -/
theorem pending_afterControl_ack {a : Addr} (time : UInt8)
    (able : (Connection.mk a (.http c)).ableToSend p) (ready : c.request.readyToSend)
    (ack : c.cometSendAck = true)
    : pending p ⟨a, .http (afterControl c.outputHandler
        { advance p s { c with outputHandler := some .ack } .ack 0 with transmissionTime := time })⟩ + 1
      ≤ pending p ⟨a, .http c⟩ := by
  cases handler : c.outputHandler with
  | none => simp [Connection.ableToSend, HttpConnection.somethingToSend, handler] at able
  | some h =>
      obtain ⟨-, -, -, request, -, -⟩ :=
        advance_frame (p := p) (t := s) { c with outputHandler := some .ack } .ack 0
      have room := roomOf_advance_zero (p := p) s { c with outputHandler := some .ack } .ack
      have after : afterControl (some h)
          { advance p s { c with outputHandler := some .ack } .ack 0 with transmissionTime := time }
          = {
            advance p s { c with outputHandler := some .ack } .ack 0 with
            transmissionTime := time
            outputHandler := some h
            cometSendAck := false
            finalOutseqno :=
              (advance p s { c with outputHandler := some .ack } .ack 0).nextOutseqno
          } := by
        rw [afterControl, if_pos (by simpa only [request] using ready)]
      rw [after]
      have paid (d : HttpConnection) (same : d.outputHandler = some h) (none : d.cometSendAck = false)
          (kept : roomOf d = roomOf c)
          : pending p ⟨a, .http d⟩ + 1 ≤ pending p ⟨a, .http c⟩ := by
        simp only [pending, same, none, kept, handler, ack, if_true, Bool.false_eq_true, if_false]
        omega
      exact paid _ rfl rfl room

/-- A file segment of a connection with room for a whole MSS. -/
theorem filePayload_room {a : Addr} {file : StaticResource} {payload : List UInt8}
    (able : (Connection.mk a (.http c)).ableToSend p) (handler : c.outputHandler = some h)
    (isFile : (p.handler h).data = .file file) (noAck : c.cometSendAck = false)
    (content : filePayload p c file = some payload) (chunk : 0 < p.maxOutSize c.tcpMss)
    : 0 < payload.length ∧ payload.length ≤ (roomOf c).toNat := by
  have window := room_of_ableToSend able
  have cwnd := c.cwnd.toNat_lt
  have mss := maxOutSize_le p c.tcpMss
  simp only [Connection.ableToSend, HttpConnection.somethingToSend, handler, noAck,
    Program.isControl, isFile, Bool.or_self, Bool.false_eq_true, if_false, Bool.and_eq_true,
    bne_iff_ne] at able
  obtain ⟨⟨⟨-, something⟩, -⟩, -⟩ := able
  have remaining : 0 < (c.finalOutseqno - c.nextOutseqno).toNat := by
    rw [Nat.pos_iff_ne_zero]
    intro none
    have equal : c.finalOutseqno - c.nextOutseqno = 0 := UInt32.toNat_inj.mp none
    exact something (by grind)
  unfold filePayload at content
  dsimp only at content
  split at content
  · simp only [Option.some.injEq] at content
    rw [← content, List.length_take, List.length_drop, roomOf_toNat]
    omega
  · cases content

/-- The call for an HTTP connection pays for its packets. -/
theorem Serves.pays {before : List Connection} {a : Addr} (serves : Serves p s before a c s')
    (ring : s.connections = before ++ [⟨a, .http c⟩])
    (able : (Connection.mk a (.http c)).ableToSend p) (rst : s'.rstConnection = s.rstConnection)
    (progress : ConnectionProgress p s c)
    : Pays p s s' := by
  have total : (s.connections.map (pending p)).sum
      = (before.map (pending p)).sum + pending p ⟨a, .http c⟩ := by
    rw [ring, List.map_append, List.sum_append, List.map_singleton, List.sum_singleton]
  have alive : 0 < pending p ⟨a, .http c⟩ := by
    simp only [pending]
    omega
  obtain ⟨done, content⟩ := progress
  cases serves with
  | ack instead sent after =>
      refine .of_sum rst sent ?_
      rw [List.length_singleton, total]
      rcases after with ⟨-, after⟩ | ⟨open_, after⟩
      · rw [after]
        omega
      · have ready := done.resolve_right open_
        have ack : c.cometSendAck = true := instead.resolve_left (not_not.mpr ready)
        have less := pending_afterControl_ack (s := s) s.lastTransmissionTime able ready ack
        rw [after, List.map_append, List.sum_append, List.map_singleton, List.sum_singleton]
        omega
  | control h ready noAck handler isControl sent after =>
      refine .of_sum rst sent ?_
      rw [List.length_singleton, total]
      rcases after with ⟨-, after⟩ | ⟨-, after⟩
      · rw [after]
        omega
      · have less := pending_afterControl (s := s) a s.lastTransmissionTime handler isControl noAck
        rw [after, List.map_append, List.sum_append, List.map_singleton, List.sum_singleton]
        omega
  | file h file payload ready noAck handler isFile content' sent after =>
      have chunk := content ready (by simp [noAck]) h handler
      simp only [isFile] at chunk
      obtain ⟨positive, room⟩ := filePayload_room able handler isFile noAck content' chunk
      have data : isSyn p h = false := by
        simp only [isSyn, getFlags, isFile]
        decide
      have less := pending_advance (t := s) a s.lastTransmissionTime data positive room
      refine .of_sum rst sent ?_
      rw [List.length_singleton, total, after, List.map_append, List.sum_append, List.map_singleton,
        List.sum_singleton]
      omega
  | generator h resource ready noAck handler isGenerator call served =>
      have room := content ready (by simp [noAck]) h handler
      simp only [isGenerator] at room
      have here : s.http before.length = some c := by simp [Server.http, ring]
      exact sendGenerator_pays call isGenerator here handler room

/-- A call of `smews_send` that gets something pending done pays for its packets. -/
theorem smewsSend_pays (send : smewsSend p s = some s') (progress : SendProgress p s)
    : Pays p s s' := by
  cases smewsSend_sends send with
  | nothing _ _ same => exact same ▸ .of_eq rfl rfl rfl
  | reset rst same =>
      subst same
      have cleared : pendingAll p (sendRst s) = (s.connections.map (pending p)).sum := by
        simp [pendingAll, sendRst]
      have one : (sendRst s).sent.length = s.sent.length + 1 := by simp [sendRst]
      rw [Pays, cleared, one, pendingAll, if_pos rst]
      omega
  | gpip i before a g rst chosen ring answered =>
      obtain ⟨_, -, sent⟩ := answered.sent
      refine .of_sum (smewsSend_rst send rst) sent ?_
      have total := ((ring ▸ rotate_perm i s).symm.map (pending p)).sum_nat
      rw [answered.ring, total, List.map_append, List.sum_append]
      exact le_rfl
  | http i before a c rst chosen able ring serves =>
      have here : s.http i = some c := by
        obtain ⟨lt, -, -⟩ := List.findIdx?_eq_some_iff_getElem.mp chosen
        have last := rotate_last (List.getElem?_eq_getElem lt)
        rw [ring] at last
        obtain ⟨-, same⟩ := List.append_inj' last rfl
        simp only [List.cons.injEq, and_true] at same
        simp [Server.http, List.getElem?_eq_getElem lt, ← same]
      obtain ⟨done, content⟩ := progress rst i chosen c here
      refine (rotate_pays i s).trans (serves.pays ring able ((smewsSend_rst send rst).trans rfl)
        ⟨done, fun ready noAck h handler => ?_⟩)
      have content := content ready noAck h handler
      split at content
      · exact content
      · exact content.rotate
      · trivial

end Call

end Smews.Output
