import Smews.Output.Emission

/-! Every segment that `smews_send` emits fits the MSS and the window of its connection, and
`out_c` stays inside the output buffer, as long as the limit of the generator leaves room for
the header.
-/

namespace Smews.Output

open Smews.Core

variable {p : Program}

--------------------------------------------------
-- Emission
--------------------------------------------------

/-- A packet fits one of the windows: the one of its connection. -/
def FitsWindow (p : Program) (ws : List (Option Window)) (entry : Option Addr × Packet) : Prop :=
  match entry.2.body with
  | .gpip _ payload => payload.length ≤ p.outputBufferSize.toNat
  | .tcp _ _ _ _ _ payload =>
      match entry.1 with
      | none => payload = []
      | some a => ∃ w, some w ∈ ws ∧ w.addr = a ∧ payload.length ≤ w.tcpMss.toNat
          ∧ w.inflight.toNat + payload.length ≤ w.cwnd.toNat

/-- The new packets of a step fit the windows before it. -/
def Emits (p : Program) (ws : List (Option Window)) (s s' : Server) : Prop :=
  ∃ new, s'.sent = s.sent ++ new ∧ ∀ entry ∈ new, FitsWindow p ws entry

theorem Emits.of_sent {ws : List (Option Window)} {s s' : Server} (sent : s'.sent = s.sent)
    : Emits p ws s s' :=
  ⟨[], by simp [sent], by simp⟩

theorem Emits.trans {ws : List (Option Window)} {s s' s'' : Server} (h : Emits p ws s s')
    (h' : Emits p ws s' s'')
    : Emits p ws s s'' := by
  obtain ⟨new, eq, fits⟩ := h
  obtain ⟨new', eq', fits'⟩ := h'
  refine ⟨new ++ new', by rw [eq', eq, List.append_assoc], fun entry mem => ?_⟩
  rcases List.mem_append.mp mem with mem | mem
  · exact fits entry mem
  · exact fits' entry mem

theorem Emits.mono {ws ws' : List (Option Window)} {s s' : Server} (h : Emits p ws s s')
    (sub : ∀ w, some w ∈ ws → some w ∈ ws')
    : Emits p ws' s s' := by
  obtain ⟨new, eq, fits⟩ := h
  refine ⟨new, eq, fun entry mem => ?_⟩
  have fit := fits entry mem
  unfold FitsWindow at *
  split at fit
  · exact fit
  · split at fit
    · exact fit
    · obtain ⟨w, mem, rest⟩ := fit
      exact ⟨w, sub w mem, rest⟩

/-- A connection that is able to send has room for a whole MSS. -/
theorem room_of_ableToSend {addr : Addr} {c : HttpConnection}
    (able : Connection.ableToSend p ⟨addr, .http c⟩)
    : c.inflight.toNat + c.tcpMss.toNat ≤ c.cwnd.toNat := by
  simp only [Connection.ableToSend, Bool.and_eq_true, decide_eq_true_eq] at able
  exact able.2

/-- An emission on a connection with room for a whole MSS, of a payload within it. -/
theorem sendPacket_emits {i : Nat} {s s' : Server} {connection : Connection} {c : HttpConnection}
    {h : HandlerRef}
    (send : sendPacket p i s = some s') (at_i : s.connections[i]? = some connection)
    (isHttp : connection.protocol = .http c) (handler : c.outputHandler = some h)
    (room : c.inflight.toNat + c.tcpMss.toNat ≤ c.cwnd.toNat)
    (fits : ∀ payload, segmentPayload p s c h = some payload → payload.length ≤ c.tcpMss.toNat)
    : Emits p [windowOf connection] s s' := by
  obtain ⟨addr', c', h', payload, at_i', handler', content, rfl⟩ := sendPacket_spec send
  rw [at_i] at at_i'
  cases at_i'
  cases isHttp
  rw [handler] at handler'
  cases handler'
  have length := fits payload content
  refine ⟨[(some addr', packetFor p c h payload)], rfl, ?_⟩
  intro entry mem
  rw [List.mem_singleton] at mem
  subst mem
  refine ⟨⟨addr', c.tcpMss, c.cwnd, c.inflight⟩, List.mem_singleton.mpr rfl, rfl, length, ?_⟩
  show c.inflight.toNat + payload.length ≤ c.cwnd.toNat
  omega

/-- Only the connection at one position differs, besides the history of packets. -/
structure OnlyAt (j : Nat) (s s' : Server) : Prop where
  heap : s'.heap = s.heap
  service : s'.service = s.service
  output : s'.currOutput = s.currOutput
  length : s'.connections.length = s.connections.length
  others : ∀ k, k ≠ j → s'.connections[k]? = s.connections[k]?

theorem OnlyAt.refl (j : Nat) (s : Server) : OnlyAt j s s := ⟨rfl, rfl, rfl, rfl, fun _ _ => rfl⟩

theorem OnlyAt.trans {j : Nat} {s s' s'' : Server} (h : OnlyAt j s s') (h' : OnlyAt j s' s'')
    : OnlyAt j s s'' :=
  ⟨
    h'.heap.trans h.heap, h'.service.trans h.service, h'.output.trans h.output,
    h'.length.trans h.length, fun k hk => (h'.others k hk).trans (h.others k hk)
  ⟩

theorem OnlyAt.setHttp (j : Nat) (c : HttpConnection) (s : Server) : OnlyAt j s (s.setHttp j c) :=
  ⟨rfl, rfl, rfl, by simp [Server.setHttp], fun k hk => by
    simp only [Server.setHttp, List.getElem?_modify, hk.symm, if_false, Option.map_eq_map,
      Option.map_id']⟩

theorem sendPacket_onlyAt {j : Nat} {s s' : Server} (send : sendPacket p j s = some s')
    : OnlyAt j s s' := by
  obtain ⟨_, c, h, payload, _, _, _, rfl⟩ := sendPacket_spec send
  have only := OnlyAt.setHttp j
    { advance p s c h payload.length with transmissionTime := s.lastTransmissionTime } s
  exact ⟨rfl, rfl, rfl, only.length, only.others⟩

theorem endStream_onlyAt {j : Nat} {ended : Bool} {s s' : Server}
    (step : endStream j ended s = some s')
    : OnlyAt j s s' ∧ s'.sent = s.sent := by
  unfold endStream at step
  split at step
  · simp only [Option.map_eq_some_iff] at step
    obtain ⟨c, -, rfl⟩ := step
    exact ⟨.setHttp j _ s, rfl⟩
  · simp only [Option.some.injEq] at step
    subst step
    exact ⟨.refl j s, rfl⟩

/-- A segment of a comet response on one connection: the others are left alone. -/
theorem multicastTo_emits {h : HandlerRef} {resource : DynamicResource} {ended : Bool} {j : Nat}
    {s s' : Server} {connection : Connection}
    (send : multicastTo p h ended j s = some s') (at_j : s.connections[j]? = some connection)
    (generator : (p.handler h).data = .generator resource)
    (fits : ∀ mss, targetOf p connection = some (h, mss)
      → s.currOutput.contentLength.toNat + serviceHeadersSize s.currOutput.serviceHeader
        ≤ mss.toNat)
    : Emits p [windowOf connection] s s' ∧ OnlyAt j s s' := by
  have quiet : Emits p [windowOf connection] s s ∧ OnlyAt j s s := ⟨.of_sent rfl, .refl j s⟩
  unfold multicastTo at send
  simp only [at_j, Option.bind_eq_bind, Option.bind_some] at send
  cases isHttp : connection.protocol with
  | gpip g =>
      simp only [isHttp, Option.some.injEq] at send
      subst send
      exact quiet
  | http c =>
      simp only [isHttp] at send
      split at send
      · rename_i able
        have emitted {t : Server} (sent : sendPacket p j s = some t)
            : Emits p [windowOf connection] s t ∧ OnlyAt j s t := by
          refine ⟨sendPacket_emits sent at_j isHttp able.1 ?_ ?_, sendPacket_onlyAt sent⟩
          · obtain ⟨addr, protocol⟩ := connection
            cases isHttp
            exact room_of_ableToSend able.2
          · intro payload eq
            rw [segmentPayload_generator generator eq]
            exact fits c.tcpMss (by simp [targetOf, isHttp, able.1, able.2])
        split at send
        · rw [Option.bind_eq_some_iff] at send
          obtain ⟨t, first, last⟩ := send
          obtain ⟨only, sent⟩ := endStream_onlyAt last
          have before : Emits p [windowOf connection] s t ∧ OnlyAt j s t := by
            split at first
            · exact emitted first
            · simp only [Option.some.injEq] at first
              subst first
              exact quiet
          exact ⟨before.1.trans (.of_sent sent), before.2.trans only⟩
        · exact emitted send
      · simp only [Option.some.injEq] at send
        subst send
        exact quiet

/-- A segment of a comet response on the first connections of the ring, by induction on their
number: the later ones are as before.
-/
theorem multicast_emits {h : HandlerRef} {resource : DynamicResource} {ended : Bool}
    {s : Server} (n : Nat) {s' : Server}
    (send : (List.range n).foldlM (fun s j => multicastTo p h ended j s) s = some s')
    (generator : (p.handler h).data = .generator resource)
    (fits : ∀ mss, some (h, mss) ∈ targets p s
      → s.currOutput.contentLength.toNat + serviceHeadersSize s.currOutput.serviceHeader
        ≤ mss.toNat)
    : Emits p (windows s) s s' ∧ s'.heap = s.heap ∧ s'.currOutput = s.currOutput
      ∧ ∀ k, n ≤ k → s'.connections[k]? = s.connections[k]? := by
  induction n generalizing s' with
  | zero =>
      simp only [List.range_zero, List.foldlM_nil, Option.pure_def, Option.some.injEq] at send
      subst send
      exact ⟨.of_sent rfl, rfl, rfl, fun _ _ => rfl⟩
  | succ n ih =>
      rw [List.range_succ, List.foldlM_append] at send
      cases before : (List.range n).foldlM (fun s j => multicastTo p h ended j s) s with
      | none => simp [before] at send
      | some t =>
          simp only [before, List.foldlM_cons, List.foldlM_nil, Option.bind_eq_bind,
            Option.bind_some, Option.pure_def, Option.bind_fun_some] at send
          obtain ⟨emits, heap, output, later⟩ := ih before
          have same := later n le_rfl
          cases at_n : t.connections[n]? with
          | none => simp [multicastTo, at_n] at send
          | some connection =>
              rw [at_n] at same
              have mem := List.mem_of_getElem? same.symm
              obtain ⟨emits', only⟩ := multicastTo_emits send at_n generator
                fun mss target => by
                  rw [output]
                  exact fits mss (target ▸ List.mem_map_of_mem mem)
              refine ⟨emits.trans (emits'.mono fun w hw => ?_), only.heap.trans heap,
                only.output.trans output, fun k hk => ?_⟩
              · rw [List.mem_singleton] at hw
                exact hw ▸ List.mem_map_of_mem mem
              · rw [only.others k (by omega), later k (by omega)]

/-- The MSS of each connection that the segment of a handler goes to. -/
def receivers (p : Program) (s : Server) (h : HandlerRef) (c : HttpConnection) : List UInt16 :=
  if (p.handler h).handlerComet then
    (targets p s).filterMap fun
      | some (h', mss) => if h' = h then some mss else none
      | none => none
  else [c.tcpMss]

theorem mem_receivers {s : Server} {h : HandlerRef} {c : HttpConnection} {mss : UInt16}
    : mss ∈ receivers p s h c ↔
      if (p.handler h).handlerComet then some (h, mss) ∈ targets p s else mss = c.tcpMss := by
  unfold receivers
  split_ifs with comet
  · rw [List.mem_filterMap]
    constructor
    · rintro ⟨target, mem, eq⟩
      split at eq
      · simp only [Option.ite_none_right_eq_some, Option.some.injEq] at eq
        obtain ⟨rfl, rfl⟩ := eq
        exact mem
      · cases eq
    · exact fun mem => ⟨_, mem, by simp⟩
  · exact List.mem_singleton

/-- The emission of a generator segment that fits the MSS of each of its targets. -/
theorem emit_emits {i : Nat} {h : HandlerRef} {resource : DynamicResource} {ended : Bool}
    {s s' : Server} {c : HttpConnection}
    (send : emit p i h ended s = some s') (generator : (p.handler h).data = .generator resource)
    (here : s.http i = some c) (handler : c.outputHandler = some h)
    (room : c.inflight.toNat + c.tcpMss.toNat ≤ c.cwnd.toNat)
    (fits : ∀ mss ∈ receivers p s h c,
      s.currOutput.contentLength.toNat + serviceHeadersSize s.currOutput.serviceHeader
        ≤ mss.toNat)
    : Emits p (windows s) s s' ∧ s'.heap = s.heap := by
  unfold emit at send
  simp only [mem_receivers] at fits
  split_ifs at send fits with comet
  · obtain ⟨emits, heap, -⟩ := multicast_emits s.connections.length send generator fits
    exact ⟨emits, heap⟩
  · obtain ⟨addr, at_i⟩ := http_eq here
    refine ⟨(sendPacket_emits send at_i rfl handler room fun payload eq => ?_).mono fun w hw => ?_,
      (sendPacket_onlyAt send).heap⟩
    · rw [segmentPayload_generator generator eq]
      exact fits c.tcpMss rfl
    · rw [List.mem_singleton] at hw
      exact hw ▸ List.mem_map_of_mem (List.mem_of_getElem? at_i)

/-- What follows the emission sends nothing and stores nothing. -/
theorem concludeSegment_quiet {i : Nat} {a : Addr} {h : HandlerRef} {retransmitting ended : Bool}
    {s s' : Server} (step : concludeSegment p i a h retransmitting ended s = some s')
    : s'.sent = s.sent ∧ s'.heap.chars = s.heap.chars := by
  unfold concludeSegment at step
  dsimp only at step
  rw [Option.bind_eq_bind, Option.bind_eq_some_iff] at step
  obtain ⟨c, -, rest⟩ := step
  split_ifs at rest <;> simp only [Option.some.injEq] at rest <;> subst rest <;>
    simp [Server.cleanService, Server.setService, Server.setHttp]

--------------------------------------------------
-- A generator
--------------------------------------------------

/-- The bounds of one call of `smews_send`: each packet fits the window of its connection, and
nothing is stored behind the output buffer.
-/
structure Bounded (p : Program) (s s' : Server) : Prop where
  emits : Emits p (windows s) s s'
  chars : ∀ a (i : Int), p.outputBufferSize.toNat ≤ i → s'.heap.chars a i = s.heap.chars a i

theorem Quiet.bounded {s s' : Server} (quiet : Quiet p p.outputBufferSize.toNat s s')
    : Bounded p s s' :=
  ⟨.of_sent quiet.sent, quiet.chars⟩

theorem Quiet.bounded_trans {s s' s'' : Server} (quiet : Quiet p p.outputBufferSize.toNat s s')
    (bounded : Bounded p s' s'')
    : Bounded p s s'' :=
  ⟨
    (Emits.of_sent quiet.sent).trans (quiet.windows ▸ bounded.emits),
    fun a i hi => (bounded.chars a i hi).trans (quiet.chars a i hi)
  ⟩

theorem Bounded.conclude {s s' s'' : Server} (bounded : Bounded p s s') (sent : s''.sent = s'.sent)
    (chars : s''.heap.chars = s'.heap.chars)
    : Bounded p s s'' :=
  ⟨bounded.emits.trans (.of_sent sent), fun a i hi => by rw [chars, bounded.chars a i hi]⟩

/-- Contents of a length fit the output buffer and, with the header that they get, the MSS of
each target.
-/
def Fits (p : Program) (target : List UInt16) (stream : Bool) (header : ServiceHeader)
    (ended : Bool) (length : Nat)
    : Prop :=
  length ≤ p.outputBufferSize.toNat
    ∧ ∀ mss ∈ target,
      length + serviceHeadersSize (selectHeader stream ended header) ≤ mss.toNat

/-- What a service emits next fits: the contents kept for a persistent generator, or those of a
generation.
-/
def ServiceFits (p : Program) (a : Addr) (h : HandlerRef) (c : HttpConnection)
    (target : List UInt16) (s : Server)
    : Prop :=
  let retransmitting := c.nextOutseqno != (s.service a).currOutseqno
  let stream := (p.handler h).handlerStream
  if (s.service a).isPersistent && retransmitting then
    ∀ r ∈ ifSelect (s.service a) c.nextOutseqno,
      Fits p target stream r.serviceHeader false s.currOutput.contentLength.toNat
  else
    Stores p s a (statusBefore s a c.nextOutseqno retransmitting)
      (Fits p target stream (headerBefore s a c.nextOutseqno retransmitting))

/-- The preparation of the coroutine changes nothing that the next segment depends on. -/
theorem ServiceFits.of_prepared {a : Addr} {h : HandlerRef} {c : HttpConnection}
    {target : List UInt16} {s s' : Server} (fits : ServiceFits p a h c target s)
    (service : s'.service = s.service) (chars : s'.heap.chars = s.heap.chars)
    (starts : s'.heap.starts = s.heap.starts)
    (func : (s'.heap.coroutine (.service a)).func = (s.heap.coroutine (.service a)).func)
    (status : (s'.heap.coroutine (.service a)).currContext.status
      = (s.heap.coroutine (.service a)).currContext.status)
    (content : s'.currOutput.contentLength = s.currOutput.contentLength)
    (limit : s'.currOutput.maxBytes = s.currOutput.maxBytes)
    : ServiceFits p a h c target s' := by
  unfold ServiceFits Stores statusBefore headerBefore at *
  rw [service, func, status, content, limit]
  simp only [startOutput_congr p chars starts]
  exact fits

/-- A segment that was generated or found again, if the step went that far. -/
def Ready (p : Program) (h : HandlerRef) (target : List UInt16) (s : Server)
    : Progress Bool → Prop
  | .stop s' => Quiet p p.outputBufferSize.toNat s s'
  | .go ended s' =>
      Quiet p p.outputBufferSize.toNat s s'
        ∧ Fits p target (p.handler h).handlerStream s'.currOutput.serviceHeader ended
          s'.currOutput.contentLength.toNat

/-- The segment of a service that fits. -/
theorem nextSegment_ready {i : Nat} {a : Addr} {h : HandlerRef} {c : HttpConnection}
    {target : List UInt16} {s : Server} {progress : Progress Bool}
    (step : nextSegment p i a c (c.nextOutseqno != (s.service a).currOutseqno) s = some progress)
    (here : s.http i = some c) (fits : ServiceFits p a h c target s)
    : Ready p h target s progress := by
  unfold ServiceFits at fits
  unfold nextSegment at step
  dsimp only at fits
  split_ifs at step fits
  · obtain ⟨s', again, rfl⟩ := Option.map_eq_some_iff.mp step
    unfold resend at again
    cases found : ifSelect (s.service a) c.nextOutseqno with
    | none => simp [found] at again
    | some r =>
        simp only [found, Option.bind_eq_bind, Option.bind_some] at again
        split at again
        · cases again
        · simp only [Option.some.injEq] at again
          subst again
          exact ⟨.setOutput s _, fits r found⟩
  · have generated := generate_spec step here fits fun _ _ allowed => allowed.1
    cases progress with
    | stop s' => exact generated
    | go ended s' =>
        obtain ⟨quiet, allowed, header⟩ := generated
        exact ⟨quiet, header ▸ allowed⟩

/-- The call for a service whose next segment fits. -/
theorem sendService_bounded {i : Nat} {a : Addr} {h : HandlerRef} {resource : DynamicResource}
    {c : HttpConnection} {s s' : Server}
    (send : sendService p i a h s = some s') (generator : (p.handler h).data = .generator resource)
    (here : s.http i = some c) (handler : c.outputHandler = some h)
    (room : c.inflight.toNat + c.tcpMss.toNat ≤ c.cwnd.toNat)
    (fits : ServiceFits p a h c (receivers p s h c) s)
    : Bounded p s s' := by
  unfold sendService at send
  simp only [here, Option.bind_eq_bind, Option.bind_some] at send
  set s1 := s.setOutput { s.currOutput with service := some a, nextOutseqno := c.nextOutseqno }
  obtain ⟨func, status⟩ := s1.heap.crPrepare_coroutine (.service a)
  have chars := s1.heap.crPrepare_chars (.service a)
  have starts := s1.heap.crPrepare_starts (.service a)
  cases prepared : s1.heap.crPrepare (.service a) with
  | mk done heap =>
  rw [prepared] at send func status chars starts
  have quiet1 : Quiet p p.outputBufferSize.toNat s { s1 with heap } :=
    (Quiet.setOutput s _).trans (.heap s1 chars)
  cases done with
  | false =>
      simp only [Option.some.injEq] at send
      subst send
      exact quiet1.bounded
  | true =>
      dsimp only at send
      rw [Option.bind_eq_some_iff] at send
      obtain ⟨progress, step, rest⟩ := send
      have ready := nextSegment_ready (s := { s1 with heap }) step here
        (fits.of_prepared rfl chars starts func status rfl rfl)
      cases progress with
      | stop s2 =>
          simp only [Option.some.injEq] at rest
          subst rest
          exact (quiet1.trans ready).bounded
      | go ended s2 =>
          obtain ⟨quiet2, allowed⟩ := ready
          dsimp only at rest
          rw [Option.bind_eq_some_iff] at rest
          obtain ⟨s4, emitted, concluded⟩ := rest
          set s3 := s2.setOutput { s2.currOutput with
            serviceHeader :=
              selectHeader (p.handler h).handlerStream ended s2.currOutput.serviceHeader }
          have quiet3 : Quiet p p.outputBufferSize.toNat s s3 :=
            (quiet1.trans quiet2).trans (.setOutput s2 _)
          obtain ⟨c3, here3, handler3, mss3, cwnd3, inflight3⟩ :=
            quiet3.http here
          obtain ⟨emits, heap4⟩ := emit_emits emitted generator here3 (handler3.trans handler)
            (by rw [mss3, cwnd3, inflight3]; exact room) fun mss target => by
              refine allowed.2 mss ?_
              rw [mem_receivers] at target ⊢
              split_ifs at target ⊢
              · exact quiet3.targets h mss target
              · rw [target, mss3]
          obtain ⟨sent, chars'⟩ := concludeSegment_quiet concluded
          have bounded3 : Bounded p s3 s4 := ⟨emits, fun _ _ _ => by rw [heap4]⟩
          exact (quiet3.bounded_trans bounded3).conclude sent chars'

--------------------------------------------------
-- A new service
--------------------------------------------------

/-- What a new service starts from. -/
structure Created (p : Program) (i : Nat) (c : HttpConnection) (h : HandlerRef) (s : Server)
    (a : Addr) (s' : Server) : Prop where
  sent : s'.sent = s.sent
  windows : windows s' = windows s
  chars : s'.heap.chars = s.heap.chars
  starts : s'.heap.starts = s.heap.starts
  func : (s'.heap.coroutine (.service a)).func = serviceFunc s c h
  status : (s'.heap.coroutine (.service a)).currContext.status = .ready
  maxBytes : s'.currOutput.maxBytes = maxBytes p c.tcpMss .chunks
  header : (s'.service a).serviceHeader =
    if (p.handler h).handlerStream && c.cometStreaming then .none else .standard
  next : (s'.service a).currOutseqno = c.nextOutseqno
  http : ∃ c', s'.http i = some c' ∧ c'.nextOutseqno = c.nextOutseqno
    ∧ c'.outputHandler = c.outputHandler ∧ c'.tcpMss = c.tcpMss ∧ c'.cwnd = c.cwnd
    ∧ c'.inflight = c.inflight
  targets : (p.handler h).handlerComet
    → ∀ mss, some (h, mss) ∈ targets p s' → mss = c.tcpMss

theorem serviceFunc_congr {s s' : Server} (same : s'.heap.postData = s.heap.postData)
    (c : HttpConnection) (h : HandlerRef)
    : serviceFunc s' c h = serviceFunc s c h := by
  cases post : c.request.postData <;> simp [serviceFunc, isPostOut, post, same]

/-- The connection for which a comet response begins is active. -/
theorem markPassive_http {i : Nat} {h : HandlerRef} {s : Server} {c : HttpConnection}
    (here : s.http i = some c)
    : (markPassive i h s).http i = some { c with
      cometPassive := if c.outputHandler = some h then false else c.cometPassive } := by
  obtain ⟨addr, at_i⟩ := http_eq here
  by_cases listens : c.outputHandler = some h <;>
    simp [markPassive, Server.http, at_i, listens]

/-- When a comet response begins only its own connection is a target. -/
theorem targets_markPassive {i : Nat} {h : HandlerRef} {s : Server} {c : HttpConnection}
    {mss : UInt16} (here : s.http i = some c)
    (mem : some (h, mss) ∈ targets p (markPassive i h s))
    : mss = c.tcpMss := by
  obtain ⟨addr, at_i⟩ := http_eq here
  unfold targets at mem
  rw [List.mem_map] at mem
  obtain ⟨connection, mem, view⟩ := mem
  obtain ⟨j, at_j⟩ := List.mem_iff_getElem?.mp mem
  simp only [markPassive, List.getElem?_map, List.getElem?_zipIdx, Option.map_map,
    Option.map_eq_some_iff, Function.comp_apply] at at_j
  obtain ⟨⟨addr', protocol⟩, at_j', rfl⟩ := at_j
  cases protocol with
  | gpip g => cases view
  | http c' =>
      simp only [Nat.zero_add] at view
      by_cases listens : c'.outputHandler = some h
      · rw [if_pos listens] at view
        by_cases hj : j = i
        · subst hj
          rw [at_i] at at_j'
          cases at_j'
          simp only [targetOf, Option.ite_none_right_eq_some, Option.map_eq_some_iff,
            Prod.mk.injEq] at view
          obtain ⟨-, -, -, -, same⟩ := view
          exact same.symm
        · simp [targetOf, Connection.ableToSend, hj] at view
      · rw [if_neg listens] at view
        simp only [targetOf, Option.ite_none_right_eq_some, Option.map_eq_some_iff,
          Prod.mk.injEq] at view
        obtain ⟨-, h', isHandler, rfl, -⟩ := view
        exact absurd isHandler listens

theorem initService_spec {i : Nat} {a : Addr} {c : HttpConnection} {h : HandlerRef}
    {resource : DynamicResource} {s : Server} (here : s.http i = some c)
    : Created p i c h s a (initService p i c h resource a s) := by
  set c' := { c with
    generatorService := some a
    finalOutseqno := c.nextOutseqno - 1
    cometStreaming := (p.handler h).handlerStream || c.cometStreaming } with c'_eq
  have here' : (s.setHttp i c').http i = some c' := setHttp_http here
  have connections : (initService p i c h resource a s).connections
      = if (p.handler h).handlerComet then (markPassive i h (s.setHttp i c')).connections
        else (s.setHttp i c').connections := by
    unfold initService
    dsimp only
    by_cases comet : (p.handler h).handlerComet
    · simp only [if_pos comet]
      rfl
    · simp only [if_neg comet]
      rfl
  have windows_eq : windows (initService p i c h resource a s) = windows s := by
    have stored : windows (s.setHttp i c') = windows s := map_setHttp windowOf here fun _ => rfl
    rw [windows, connections]
    split
    · rw [map_markPassive windowOf i h _ fun _ _ _ => rfl]
      exact stored
    · exact stored
  have http_eq : (initService p i c h resource a s).http i = some { c' with
      cometPassive := if (p.handler h).handlerComet ∧ c'.outputHandler = some h then false
        else c'.cometPassive } := by
    rw [Server.http, connections]
    by_cases comet : (p.handler h).handlerComet
    · simp only [comet, true_and]
      exact markPassive_http here'
    · simp only [comet, false_and, if_false, Bool.false_eq_true]
      exact here'
  have targets_le (comet : (p.handler h).handlerComet) (mss : UInt16)
      (mem : some (h, mss) ∈ targets p (initService p i c h resource a s))
      : mss = c.tcpMss := by
    rw [targets, connections, if_pos comet] at mem
    have own : mss = c'.tcpMss := targets_markPassive here' mem
    exact own
  have func_eq : ((initService p i c h resource a s).heap.coroutine (.service a)).func
      = serviceFunc s c h := by
    have posts (o : CurrOutput) : serviceFunc (s.setOutput o) c h = serviceFunc s c h :=
      serviceFunc_congr rfl c h
    cases comet : (p.handler h).handlerComet <;>
      simp [initService, comet, markPassive, Server.setHttp, Server.setService,
        Heap.setCoroutine, posts]
  refine {
    sent := ?_, windows := windows_eq, chars := ?_, starts := ?_, func := func_eq, status := ?_,
    maxBytes := ?_, header := ?_, next := ?_, http := ⟨_, http_eq, rfl, rfl, rfl, rfl, rfl⟩,
    targets := targets_le
  }
  all_goals
    cases comet : (p.handler h).handlerComet <;>
      simp [initService, comet, markPassive, Server.setHttp, Server.setService, Server.setOutput,
        Heap.setCoroutine, Heap.crInit, Heap.setContext]

/-- A new service, unless it cannot be allocated. -/
theorem createService_spec {i : Nat} {c : HttpConnection} {h : HandlerRef}
    {resource : DynamicResource} {s s' : Server} {result : Option Addr}
    (create : createService p i c h resource s = (result, s')) (here : s.http i = some c)
    : match result with
      | none => Quiet p p.outputBufferSize.toNat s s'
      | some a => Created p i c h s a s' := by
  unfold createService at create
  have chars := s.heap.memAlloc_chars p.sizeofService
  have starts := s.heap.memAlloc_starts p.sizeofService
  have posts := s.heap.memAlloc_postData p.sizeofService
  cases alloc : s.heap.memAlloc p.sizeofService with
  | mk new heap =>
  rw [alloc] at create chars starts posts
  cases new with
  | none =>
      simp only [Prod.mk.injEq] at create
      obtain ⟨rfl, rfl⟩ := create
      exact .heap s chars
  | some a =>
      simp only [Prod.mk.injEq] at create
      obtain ⟨rfl, rfl⟩ := create
      have created : Created p i c h { s with heap } a
          (initService p i c h resource a { s with heap }) :=
        initService_spec here
      exact {
        created with
        chars := created.chars.trans chars
        starts := created.starts.trans starts
        func := created.func.trans (serviceFunc_congr posts c h)
      }

--------------------------------------------------
-- The condition on the limit
--------------------------------------------------

/-- What a generation from a context needs to fit. Either the MSS holds the header size that the
limit of `out_c` is computed with, and up to this limit the contents fit with the header that
they get; or the generator is at its beginning and all it writes fits.
-/
def GenerationFits (p : Program) (s : Server) (func : CrFunc) (status : CrStatus) (mss : UInt16)
    (target : List UInt16) (stream : Bool) (reserved header : ServiceHeader)
    : Prop :=
  let room := p.maxOutSize mss
  (serviceHeadersSize reserved ≤ room
      ∧ Fits p target stream header false
        (min p.outputBufferSize.toNat (room - serviceHeadersSize reserved))
      ∧ (status ≠ .active ∨ serviceHeadersSize reserved < room))
    ∨ (status = .ready
      ∧ ∀ k ∈ startOutput p s.heap func,
        (outputs k).length ≤ (maxBytes p mss reserved).toNat
          ∧ Fits p target stream header true (outputs k).length)

/-- A segment that ends has the shorter header. -/
theorem serviceHeadersSize_selectHeader_le (stream ended : Bool) (header : ServiceHeader)
    : serviceHeadersSize (selectHeader stream ended header)
      ≤ serviceHeadersSize (selectHeader stream false header) := by
  cases header <;> cases stream <;> cases ended <;> decide

/-- Shorter contents fit as well. -/
theorem Fits.mono {target : List UInt16} {stream : Bool} {header : ServiceHeader}
    {m n : Nat} {ended : Bool} (fits : Fits p target stream header ended n) (le : m ≤ n)
    : Fits p target stream header ended m :=
  ⟨le.trans fits.1, fun mss mem => (Nat.add_le_add_right le _).trans (fits.2 mss mem)⟩

theorem Fits.ended {target : List UInt16} {stream : Bool} {header : ServiceHeader}
    {n : Nat} (fits : Fits p target stream header false n) (ended : Bool)
    : Fits p target stream header ended n :=
  ⟨fits.1, fun mss mem => (Nat.add_le_add_left
    (serviceHeadersSize_selectHeader_le stream ended header) n).trans (fits.2 mss mem)⟩

theorem Fits.of_targets {target target' : List UInt16} {stream : Bool}
    {header : ServiceHeader} {n : Nat} {ended : Bool} (fits : Fits p target stream header ended n)
    (sub : ∀ mss ∈ target', mss ∈ target)
    : Fits p target' stream header ended n :=
  ⟨fits.1, fun mss mem => fits.2 mss (sub mss mem)⟩

theorem GenerationFits.of_targets {s s' : Server} {func : CrFunc} {status : CrStatus}
    {mss : UInt16} {target target' : List UInt16} {stream : Bool}
    {reserved header : ServiceHeader}
    (fits : GenerationFits p s func status mss target stream reserved header)
    (sub : ∀ mss ∈ target', mss ∈ target) (chars : s'.heap.chars = s.heap.chars)
    (starts : s'.heap.starts = s.heap.starts)
    : GenerationFits p s' func status mss target' stream reserved header := by
  rcases fits with ⟨room, fit, positive⟩ | ⟨ready, short⟩
  · exact .inl ⟨room, fit.of_targets sub, positive⟩
  · refine .inr ⟨ready, fun k start => ?_⟩
    rw [startOutput_congr p chars starts] at start
    exact ⟨(short k start).1, (short k start).2.of_targets sub⟩

/-- A generation that fits leaves allowed lengths only. -/
theorem GenerationFits.stores {s : Server} {a : Addr} {status : CrStatus} {mss : UInt16}
    {target : List UInt16} {stream : Bool} {reserved header : ServiceHeader}
    (fits : GenerationFits p s (s.heap.coroutine (.service a)).func status mss target stream
      reserved header)
    (limit : s.currOutput.maxBytes = maxBytes p mss reserved)
    : Stores p s a status (Fits p target stream header) := by
  rcases fits with ⟨room, fit, positive⟩ | ⟨ready, short⟩
  · have eq := maxBytes_eq p room
    refine .inl ⟨fun ended n le => ?_, positive.imp_right fun lt => ?_⟩
    · rw [limit, eq] at le
      exact (fit.mono le).ended ended
    · have := UInt16.lt_iff_toNat_lt.mp p.outputBufferSize_pos
      simp only [UInt16.toNat_zero] at this
      rw [limit, eq]
      omega
  · refine .inr ⟨ready, fun k start => ?_⟩
    obtain ⟨le, fit⟩ := short k start
    exact ⟨by rwa [limit], fun n hn => fit.mono hn⟩

/-- What the next segment of a service needs to fit. For a segment resent from its buffer this
is about the length that `curr_output` happens to hold.
-/
def SegmentFits (p : Program) (s : Server) (a : Addr) (h : HandlerRef) (c : HttpConnection)
    : Prop :=
  let stream := (p.handler h).handlerStream
  let retransmitting := c.nextOutseqno != (s.service a).currOutseqno
  if (s.service a).isPersistent && retransmitting then
    ∀ r ∈ ifSelect (s.service a) c.nextOutseqno,
      Fits p (receivers p s h c) stream r.serviceHeader false s.currOutput.contentLength.toNat
  else
    GenerationFits p s (s.heap.coroutine (.service a)).func
      (statusBefore s a c.nextOutseqno retransmitting) c.tcpMss (receivers p s h c) stream .none
      (headerBefore s a c.nextOutseqno retransmitting)

/-- What the next segment of a connection with a generator needs to fit. -/
def HandlerFits (p : Program) (s : Server) (h : HandlerRef) (c : HttpConnection) : Prop :=
  let stream := (p.handler h).handlerStream
  (c.generatorService = none
      → GenerationFits p s (serviceFunc s c h) .ready c.tcpMss [c.tcpMss] stream .chunks
        (if stream && c.cometStreaming then .none else .standard))
    ∧ ∀ a ∈ c.generatorService, SegmentFits p s a h c

/-- The call for a generator. -/
theorem sendGenerator_bounded {i : Nat} {h : HandlerRef} {resource : DynamicResource}
    {c : HttpConnection} {s s' : Server}
    (send : sendGenerator p i h resource s = some s')
    (generator : (p.handler h).data = .generator resource)
    (here : s.http i = some c) (handler : c.outputHandler = some h)
    (room : c.inflight.toNat + c.tcpMss.toNat ≤ c.cwnd.toNat)
    (fits : HandlerFits p s h c)
    : Bounded p s s' := by
  unfold sendGenerator at send
  unfold HandlerFits at fits
  simp only [here, Option.bind_eq_bind, Option.bind_some] at send
  set s1 := s.setOutput { s.currOutput with maxBytes := maxBytes p c.tcpMss .none }
  have quiet1 : Quiet p p.outputBufferSize.toNat s s1 := .setOutput s _
  cases service : c.generatorService with
  | some a =>
      simp only [service] at send
      have fits := fits.2 a service
      refine quiet1.bounded_trans (sendService_bounded send generator here handler room ?_)
      unfold SegmentFits at fits
      unfold ServiceFits
      dsimp only at fits ⊢
      by_cases again : (s.service a).isPersistent && (c.nextOutseqno != (s.service a).currOutseqno)
      · rw [if_pos again] at fits
        rw [if_pos (by exact again)]
        exact fits
      · rw [if_neg again] at fits
        rw [if_neg (by exact again)]
        exact GenerationFits.stores (s := s1) fits rfl
  | none =>
      simp only [service] at send
      have fits := fits.1 service
      cases create : createService p i c h resource s1 with
      | mk new s2 =>
      have created := createService_spec create here
      rw [create] at send
      cases new with
      | none =>
          simp only [Option.some.injEq] at send
          subst send
          exact (quiet1.trans created).bounded
      | some a =>
          obtain ⟨c2, here2, next2, handler2, mss2, cwnd2, inflight2⟩ := created.http
          have target (mss : UInt16) (mem : mss ∈ receivers p s2 h c2) : mss ∈ [c.tcpMss] := by
            rw [mem_receivers] at mem
            rw [List.mem_singleton]
            split_ifs at mem with comet
            · exact created.targets comet mss mem
            · rw [mem, mss2]
          have bounded : Bounded p s2 s' :=
            sendService_bounded send generator here2 (handler2.trans handler)
              (by rw [mss2, cwnd2, inflight2]; exact room) ?_
          · exact ⟨
              (Emits.of_sent created.sent).trans (created.windows ▸ bounded.emits),
              fun b j hj => by rw [bounded.chars b j hj, created.chars]; rfl
            ⟩
          unfold ServiceFits statusBefore headerBefore
          simp only [next2, created.next, bne_self_eq_false, Bool.and_false, if_false,
            Bool.false_eq_true, created.status, created.header]
          have generation : GenerationFits p s2 (s2.heap.coroutine (.service a)).func .ready
              c.tcpMss (receivers p s2 h c2) (p.handler h).handlerStream .chunks
              (if (p.handler h).handlerStream && c.cometStreaming then .none else .standard) := by
            rw [created.func]
            exact fits.of_targets target created.chars created.starts
          exact generation.stores created.maxBytes

--------------------------------------------------
-- One call
--------------------------------------------------

theorem freeService_quiet (s : Server) (c : HttpConnection)
    : (s.freeService p c).sent = s.sent ∧ (s.freeService p c).heap.chars = s.heap.chars := by
  unfold Server.freeService
  split
  · exact ⟨rfl, rfl⟩
  · simp [Server.cleanService, Server.setService]

/-- The end of a connection sends nothing and stores nothing. -/
theorem freeConnection_quiet {i : Nat} {s s' : Server} (free : s.freeConnection p i = some s')
    : s'.sent = s.sent ∧ s'.heap.chars = s.heap.chars := by
  unfold Server.freeConnection at free
  rw [Option.bind_eq_bind, Option.bind_eq_some_iff] at free
  obtain ⟨connection, -, free⟩ := free
  dsimp only at free
  split at free
  · simp only [Option.some.injEq] at free
    subst free
    simp
  · rename_i c _
    rw [Option.bind_eq_bind, Option.bind_eq_some_iff] at free
    obtain ⟨heap, args, free⟩ := free
    simp only [Option.some.injEq] at free
    subst free
    have chars : heap.chars = s.heap.chars := by
      unfold Heap.freeArgs at args
      split at args
      · simp only [Option.some.injEq] at args
        rw [← args]
      · exact s.heap.memFreePointer_chars args
    obtain ⟨sent, same⟩ := freeService_quiet (p := p)
      { s with heap, connections := s.connections.drop (i + 1) ++ s.connections.take i } c
    exact ⟨sent, by rw [Heap.memFree_chars, same]; exact chars⟩

/-- The call for a connection that has only a control packet to send. -/
theorem sendControl_bounded {i : Nat} {old : Option HandlerRef} {h : HandlerRef}
    {c : HttpConnection} {s s' : Server}
    (send : sendControl p i old s = some s') (control : p.isControl h)
    (here : s.http i = some c) (handler : c.outputHandler = some h)
    (room : c.inflight.toNat + c.tcpMss.toNat ≤ c.cwnd.toNat)
    : Bounded p s s' := by
  unfold sendControl at send
  rw [Option.bind_eq_bind, Option.bind_eq_some_iff] at send
  obtain ⟨s1, packet, rest⟩ := send
  have bounded : Bounded p s s1 := by
    obtain ⟨addr, at_i⟩ := http_eq here
    have emits := sendPacket_emits packet at_i rfl handler room fun payload eq => by
      have empty : payload = [] := by
        unfold Program.isControl at control
        unfold segmentPayload at eq
        split at control
        · rename_i isControl
          rw [isControl] at eq
          simpa using eq.symm
        · cases control
      simp [empty]
    refine ⟨emits.mono fun w hw => ?_, fun _ _ _ => by rw [(sendPacket_onlyAt packet).heap]⟩
    rw [List.mem_singleton] at hw
    exact hw ▸ List.mem_map_of_mem (List.mem_of_getElem? at_i)
  rw [Option.bind_eq_bind, Option.bind_eq_some_iff] at rest
  obtain ⟨c1, -, rest⟩ := rest
  dsimp only at rest
  split at rest
  · obtain ⟨sent, chars⟩ := freeConnection_quiet rest
    exact bounded.conclude sent chars
  · split at rest
    · simp only [Option.some.injEq] at rest
      subst rest
      exact bounded.conclude rfl rfl
    · split at rest <;> simp only [Option.some.injEq] at rest <;> subst rest <;>
        exact bounded.conclude rfl rfl

/-- A packet above IP needs a device that takes its header. -/
theorem gpIpMaxBytes_le (header : p.devMtu.all (20 ≤ ·))
    : (gpIpMaxBytes p).toNat ≤ p.outputBufferSize.toNat := by
  unfold gpIpMaxBytes
  split
  · exact le_rfl
  · rename_i mtu device
    split_ifs with small
    · have : 20 ≤ mtu := by simpa [device] using header
      have : (mtu - 20).toNat = mtu.toNat - 20 := by
        rw [UInt16.toNat_sub_of_le _ _ this]
        rfl
      omega
    · exact le_rfl

/-- The call for a connection above IP. -/
theorem sendGpIp_bounded {i : Nat} {c : GpIpConnection} {s s' : Server}
    (send : sendGpIp p i c s = some s') (header : p.devMtu.all (20 ≤ ·))
    : Bounded p s s' := by
  unfold sendGpIp at send
  split at send
  · simp only [Option.bind_eq_bind, Option.bind_eq_some_iff] at send
    obtain ⟨connection, -, free⟩ := send
    obtain ⟨sent, chars⟩ := freeConnection_quiet free
    refine ⟨⟨_, sent, fun entry mem => ?_⟩, fun _ _ _ => by rw [chars]; rfl⟩
    rw [List.mem_singleton] at mem
    subst mem
    exact (List.length_take_le _ _).trans (gpIpMaxBytes_le header)
  · cases send

/-- What a call of `smews_send` for a connection needs to fit: only a generator is at issue, when
it is not a plain ACK that is sent in its place.
-/
def ConnectionFits (p : Program) (s : Server) (c : HttpConnection) : Prop :=
  c.request.readyToSend → ¬ c.cometSendAck →
    ∀ h ∈ c.outputHandler, p.isGenerator h → HandlerFits p s h c

/-- The call for an HTTP connection. -/
theorem sendHttp_bounded {i : Nat} {c : HttpConnection} {s s' : Server}
    (send : sendHttp p i s = some s') (here : s.http i = some c)
    (room : c.inflight.toNat + c.tcpMss.toNat ≤ c.cwnd.toNat) (fits : ConnectionFits p s c)
    : Bounded p s s' := by
  unfold sendHttp at send
  simp only [here, Option.bind_eq_bind, Option.bind_some] at send
  split_ifs at send with ack
  · have same : windows (s.setHttp i { c with outputHandler := some .ack }) = windows s :=
      map_setHttp windowOf here fun _ => rfl
    have bounded := sendControl_bounded send rfl (setHttp_http here) rfl room
    exact ⟨same ▸ bounded.emits, bounded.chars⟩
  · rw [not_or, not_not] at ack
    rw [Option.bind_eq_some_iff] at send
    obtain ⟨h, handler, rest⟩ := send
    cases data : (p.handler h).data with
    | control length flags =>
        simp only [data] at rest
        exact sendControl_bounded rest (by simp [Program.isControl, data]) here handler room
    | file file =>
        simp only [data] at rest
        obtain ⟨addr, at_i⟩ := http_eq here
        have emits := sendPacket_emits rest at_i rfl handler room fun payload eq =>
          (segmentPayload_file data eq).trans (maxOutSize_le p c.tcpMss)
        refine ⟨emits.mono fun w hw => ?_, fun _ _ _ => by rw [(sendPacket_onlyAt rest).heap]⟩
        rw [List.mem_singleton] at hw
        exact hw ▸ List.mem_map_of_mem (List.mem_of_getElem? at_i)
    | generator resource =>
        simp only [data] at rest
        exact sendGenerator_bounded rest data here handler room
          (fits ack.1 ack.2 h handler (by simp [Program.isGenerator, data]))
    | generalIp g => simp [data] at rest

/-- What a call of `smews_send` needs to fit, about the connection that it chooses. -/
structure SendFits (p : Program) (s : Server) : Prop where
  device : p.devMtu.all (20 ≤ ·)
  connection : s.rstConnection.port = 0 → ∀ i ∈ s.connections.findIdx? (·.ableToSend p),
    ∀ c ∈ s.http i, ConnectionFits p s c

theorem mem_rotate {i : Nat} {s : Server} {connection : Connection}
    : connection ∈ (rotate i s).connections ↔ connection ∈ s.connections := by
  conv_rhs => rw [← List.take_append_drop (i + 1) s.connections]
  simp only [rotate, List.mem_append]
  exact or_comm

/-- The connection that is chosen comes last. -/
theorem getElem?_rotate {i : Nat} {s : Server} (lt : i < s.connections.length)
    : (rotate i s).connections[(rotate i s).connections.length - 1]? = s.connections[i]? := by
  have last : (rotate i s).connections.length - 1 = (s.connections.drop (i + 1)).length + i := by
    simp only [rotate, List.length_append, List.length_drop, List.length_take]
    omega
  rw [last]
  simp only [rotate]
  rw [List.getElem?_append_right (Nat.le_add_right _ _), Nat.add_sub_cancel_left,
    List.getElem?_take_of_lt (Nat.lt_succ_self i)]

section Decidable

variable (p)

instance (target : List UInt16) (stream : Bool) (header : ServiceHeader) (ended : Bool) (n : Nat)
    : Decidable (Fits p target stream header ended n) :=
  @instDecidableAnd _ _ (Nat.decLe _ _) (List.decidableBAll _ target)

instance (s : Server) (func : CrFunc) (status : CrStatus) (mss : UInt16) (target : List UInt16)
    (stream : Bool) (reserved header : ServiceHeader)
    : Decidable (GenerationFits p s func status mss target stream reserved header) :=
  inferInstanceAs (Decidable (_ ∨ _))

instance (s : Server) (a : Addr) (h : HandlerRef) (c : HttpConnection)
    : Decidable (SegmentFits p s a h c) :=
  inferInstanceAs (Decidable (@ite _ _ _ _ _))

instance (s : Server) (h : HandlerRef) (c : HttpConnection) : Decidable (HandlerFits p s h c) :=
  inferInstanceAs (Decidable (_ ∧ _))

instance (s : Server) (c : HttpConnection) : Decidable (ConnectionFits p s c) :=
  inferInstanceAs (Decidable (_ → _))

instance (s : Server) : Decidable (SendFits p s) :=
  decidable_of_iff (_ ∧ _) ⟨fun h => ⟨h.1, h.2⟩, fun h => ⟨h.1, h.2⟩⟩

end Decidable

/-- Where the ring begins does not matter to what is sent next. -/
theorem HandlerFits.rotate {i : Nat} {s : Server} {h : HandlerRef} {c : HttpConnection}
    (fits : HandlerFits p s h c)
    : HandlerFits p (rotate i s) h c := by
  have target (mss : UInt16) (mem : mss ∈ receivers p (Output.rotate i s) h c)
      : mss ∈ receivers p s h c := by
    rw [mem_receivers] at *
    split_ifs at *
    · simp only [targets, List.mem_map, mem_rotate] at *
      exact mem
    · exact mem
  refine ⟨fits.1, fun a service => ?_⟩
  have fits := fits.2 a service
  unfold SegmentFits at *
  dsimp only at fits ⊢
  by_cases again : (s.service a).isPersistent && (c.nextOutseqno != (s.service a).currOutseqno)
  · rw [if_pos again] at fits
    rw [if_pos (by exact again)]
    exact fun r found => (fits r found).of_targets target
  · rw [if_neg again] at fits
    rw [if_neg (by exact again)]
    exact fits.of_targets target rfl rfl

/-- Every call of `smews_send` that meets the condition keeps the bounds. -/
theorem smewsSend_bounded {s s' : Server} (send : smewsSend p s = some s') (fits : SendFits p s)
    : Bounded p s s' := by
  unfold smewsSend at send
  by_cases rst : s.rstConnection.port = 0
  · rw [if_neg (not_not.mpr rst)] at send
    cases chosen : s.connections.findIdx? (·.ableToSend p) with
    | none =>
        simp only [chosen, Option.some.injEq] at send
        subst send
        exact (Quiet.refl _ s).bounded
    | some i =>
        obtain ⟨lt, able, -⟩ := List.findIdx?_eq_some_iff_getElem.mp chosen
        simp only [chosen, Option.bind_eq_bind, getElem?_rotate lt, List.getElem?_eq_getElem lt,
          Option.bind_some] at send
        have bounded : Bounded p (rotate i s) s' := by
          cases connection : s.connections[i] with
          | mk addr protocol =>
          rw [connection] at able send
          have at_i : s.connections[i]? = some ⟨addr, protocol⟩ := by
            rw [List.getElem?_eq_getElem lt, connection]
          cases protocol with
          | gpip g => exact sendGpIp_bounded send fits.device
          | http c =>
              have here : s.http i = some c := by simp [Server.http, at_i]
              have last : (rotate i s).http ((rotate i s).connections.length - 1) = some c := by
                simp [Server.http, getElem?_rotate lt, at_i]
              refine sendHttp_bounded send last (room_of_ableToSend able) ?_
              intro ready noAck h handler generator
              exact (fits.connection rst i chosen c here ready noAck h handler generator).rotate
        refine ⟨bounded.emits.mono fun w hw => ?_, bounded.chars⟩
        simp only [windows, List.mem_map, mem_rotate] at *
        exact hw
  · rw [if_pos rst] at send
    simp only [Option.some.injEq] at send
    subst send
    refine ⟨⟨_, rfl, fun entry mem => ?_⟩, fun _ _ _ => rfl⟩
    rw [List.mem_singleton] at mem
    subst mem
    rfl

end Smews.Output
