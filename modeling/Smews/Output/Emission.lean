import Smews.Output.Bounds

/-! The packets of one `smews_send`: each fits the MSS and the window of its connection, and
nothing is stored behind the output buffer.
-/

namespace Smews.Output

open Smews.Core

variable (p : Program)

--------------------------------------------------
-- Windows
--------------------------------------------------

/-- What decides whether a connection may send. -/
structure Window where
  addr : Addr
  tcpMss : UInt16
  cwnd : UInt16
  inflight : UInt16
deriving DecidableEq, Repr

/-- The window of a connection of the ring. -/
def windowOf (connection : Connection) : Option Window :=
  match connection.protocol with
  | .http c => some ⟨connection.addr, c.tcpMss, c.cwnd, c.inflight⟩
  | .gpip _ => none

def windows (s : Server) : List (Option Window) := s.connections.map windowOf

/-- The handler of an HTTP connection. -/
def handlerOf (connection : Connection) : Option HandlerRef :=
  match connection.protocol with
  | .http c => c.outputHandler
  | .gpip _ => none

def handlers (s : Server) : List (Option HandlerRef) := s.connections.map handlerOf

/-- The handler that a connection is able to send for, and its MSS. -/
def targetOf (connection : Connection) : Option (HandlerRef × UInt16) :=
  match connection.protocol with
  | .http c => if connection.ableToSend p then c.outputHandler.map (·, c.tcpMss) else none
  | .gpip _ => none

def targets (s : Server) : List (Option (HandlerRef × UInt16)) := s.connections.map (targetOf p)

/-- Nothing is sent, no window moves, no handler changes, no connection becomes able to send, and
no character behind the first `n` of a block is stored.
-/
structure Quiet (n : Nat) (s s' : Server) : Prop where
  sent : s'.sent = s.sent
  windows : windows s' = windows s
  handlers : handlers s' = handlers s
  targets : ∀ h mss, some (h, mss) ∈ targets p s' → some (h, mss) ∈ targets p s
  chars : ∀ a (i : Int), n ≤ i → s'.heap.chars a i = s.heap.chars a i

variable {p}

theorem Quiet.trans {n : Nat} {s s' s'' : Server} (h : Quiet p n s s') (h' : Quiet p n s' s'')
    : Quiet p n s s'' :=
  ⟨
    h'.sent.trans h.sent, h'.windows.trans h.windows, h'.handlers.trans h.handlers,
    fun handler mss mem => h.targets handler mss (h'.targets handler mss mem),
    fun a i hi => (h'.chars a i hi).trans (h.chars a i hi)
  ⟩

/-- The connections and the characters stay the same. -/
theorem Quiet.of_connections {n : Nat} {s s' : Server} (connections : s'.connections = s.connections)
    (sent : s'.sent = s.sent) (chars : s'.heap.chars = s.heap.chars)
    : Quiet p n s s' :=
  ⟨
    sent, by simp only [Output.windows, connections], by simp only [Output.handlers, connections],
    fun _ _ mem => by rwa [Output.targets, connections] at mem, fun _ _ _ => by rw [chars]
  ⟩

theorem Quiet.refl (n : Nat) (s : Server) : Quiet p n s s := .of_connections rfl rfl rfl

/-- Only the heap changes, and none of its characters. -/
theorem Quiet.heap {n : Nat} (s : Server) {heap : Heap} (chars : heap.chars = s.heap.chars)
    : Quiet p n s { s with heap } :=
  .of_connections rfl rfl chars

theorem Quiet.setOutput {n : Nat} (s : Server) (o : CurrOutput) : Quiet p n s (s.setOutput o) :=
  .of_connections rfl rfl rfl

theorem Quiet.setService {n : Nat} (s : Server) (a : Addr) (service : GeneratorService)
    : Quiet p n s (s.setService a service) :=
  .of_connections rfl rfl rfl

/-- An HTTP connection of the ring, with its address. -/
theorem http_eq {s : Server} {i : Nat} {c : HttpConnection} (here : s.http i = some c)
    : ∃ addr, s.connections[i]? = some ⟨addr, .http c⟩ := by
  unfold Server.http at here
  split at here
  · rename_i addr c' at_i
    simp only [Option.some.injEq] at here
    exact ⟨addr, by rw [at_i, here]⟩
  · cases here

@[simp] theorem setHttp_http {s : Server} {i : Nat} {c c' : HttpConnection}
    (here : s.http i = some c)
    : (s.setHttp i c').http i = some c' := by
  obtain ⟨addr, at_i⟩ := http_eq here
  simp [Server.setHttp, Server.http, at_i]

/-- The connection at a position keeps its window and its handler. -/
theorem Quiet.http {n : Nat} {s s' : Server} {i : Nat} {c : HttpConnection}
    (quiet : Quiet p n s s') (here : s.http i = some c)
    : ∃ c', s'.http i = some c' ∧ c'.outputHandler = c.outputHandler ∧ c'.tcpMss = c.tcpMss
      ∧ c'.cwnd = c.cwnd ∧ c'.inflight = c.inflight := by
  obtain ⟨addr, at_i⟩ := http_eq here
  have view := congrArg (·[i]?) quiet.windows
  have handler := congrArg (·[i]?) quiet.handlers
  simp only [Output.windows, Output.handlers, List.getElem?_map, at_i, Option.map_some,
    Option.map_eq_some_iff] at view handler
  obtain ⟨⟨addr', protocol⟩, at_i', view⟩ := view
  obtain ⟨_, at_i'', handler⟩ := handler
  rw [at_i'] at at_i''
  cases at_i''
  cases protocol with
  | gpip g => cases view
  | http c' =>
      simp only [windowOf, handlerOf, Option.some.injEq, Window.mk.injEq] at view handler
      exact ⟨c', by simp [Server.http, at_i'], handler, view.2⟩

/-- A store into a connection that keeps a view of it keeps the list of the views. -/
theorem map_setHttp {α : Type} (view : Connection → α) {s : Server} {i : Nat}
    {c c' : HttpConnection} (here : s.http i = some c)
    (same : ∀ addr, view ⟨addr, .http c'⟩ = view ⟨addr, .http c⟩)
    : (s.setHttp i c').connections.map view = s.connections.map view := by
  obtain ⟨addr, at_i⟩ := http_eq here
  apply List.ext_getElem?
  intro j
  simp only [Server.setHttp, List.getElem?_map, List.getElem?_modify]
  by_cases hj : i = j
  · subst hj
    simp [at_i, same]
  · simp [hj]

/-- Only the request of a connection changes. -/
theorem Quiet.setRequest {n : Nat} {s : Server} {i : Nat} {c : HttpConnection} (request : Request)
    (here : s.http i = some c)
    : Quiet p n s (s.setHttp i { c with request }) := by
  refine ⟨
    rfl, map_setHttp windowOf here fun _ => rfl, map_setHttp handlerOf here fun _ => rfl,
    fun h mss mem => ?_, fun _ _ _ => rfl
  ⟩
  have same : (s.setHttp i { c with request }).connections.map (targetOf p)
      = s.connections.map (targetOf p) :=
    map_setHttp (targetOf p) here fun _ => rfl
  rwa [Output.targets, same] at mem

/-- A connection seen through what the start of a comet response leaves alone. -/
theorem map_markPassive {α : Type} (view : Connection → α) (i : Nat) (h : HandlerRef) (s : Server)
    (same : ∀ addr c b, view ⟨addr, .http { c with cometPassive := b }⟩ = view ⟨addr, .http c⟩)
    : (markPassive i h s).connections.map view = s.connections.map view := by
  apply List.ext_getElem?
  intro j
  simp only [markPassive, List.getElem?_map, List.getElem?_zipIdx]
  cases s.connections[j]? with
  | none => rfl
  | some connection =>
      obtain ⟨addr, protocol⟩ := connection
      cases protocol with
      | gpip g => rfl
      | http c =>
          simp only [Option.map_some, Option.some.injEq]
          split
          · exact same _ _ _
          · rfl

variable (p)

--------------------------------------------------
-- The generation of a segment
--------------------------------------------------

/-- A step of the bookkeeping around a generation: it allocates and frees, and may change a
service and saved stacks.
-/
structure Calm (s s' : Server) : Prop where
  connections : s'.connections = s.connections
  sent : s'.sent = s.sent
  outputDone : s'.outputDone = s.outputDone
  packetCalls : s'.packetCalls = s.packetCalls
  currOutput : s'.currOutput = s.currOutput
  chars : s'.heap.chars = s.heap.chars
  coroutine : s'.heap.coroutine = s.heap.coroutine
  starts : s'.heap.starts = s.heap.starts

theorem Calm.refl (s : Server) : Calm s s := ⟨rfl, rfl, rfl, rfl, rfl, rfl, rfl, rfl⟩

theorem Calm.trans {s s' s'' : Server} (h : Calm s s') (h' : Calm s' s'') : Calm s s'' :=
  ⟨
    h'.connections.trans h.connections, h'.sent.trans h.sent, h'.outputDone.trans h.outputDone,
    h'.packetCalls.trans h.packetCalls, h'.currOutput.trans h.currOutput, h'.chars.trans h.chars, h'.coroutine.trans h.coroutine, h'.starts.trans h.starts
  ⟩

variable {p} in
theorem Calm.quiet {n : Nat} {s s' : Server} (h : Calm s s') : Quiet p n s s' :=
  .of_connections h.connections h.sent h.chars

theorem Calm.http {s s' : Server} (h : Calm s s') (i : Nat) : s'.http i = s.http i := by
  unfold Server.http
  rw [h.connections]

theorem Calm.heap (s : Server) {heap : Heap} (chars : heap.chars = s.heap.chars)
    (coroutine : heap.coroutine = s.heap.coroutine) (starts : heap.starts = s.heap.starts)
    : Calm s { s with heap } :=
  ⟨rfl, rfl, rfl, rfl, rfl, chars, coroutine, starts⟩

theorem Calm.memAlloc (s : Server) (n : UInt16) : Calm s { s with heap := (s.heap.memAlloc n).2 } :=
  .heap s (by simp) (by simp) (by simp)

theorem Calm.memFree (s : Server) (a : Option Addr) (n : UInt16)
    : Calm s { s with heap := s.heap.memFree a n } :=
  .heap s (by simp) (by simp) (by simp)

theorem Calm.setService (s : Server) (a : Addr) (service : GeneratorService)
    : Calm s (s.setService a service) :=
  ⟨rfl, rfl, rfl, rfl, rfl, rfl, rfl, rfl⟩

theorem Calm.contextBackup (a addr : Addr) (seqno : UInt32) (header : ServiceHeader) (s : Server)
    : Calm s (contextBackup p a addr seqno header s).2 := by
  unfold Output.contextBackup
  dsimp only
  have context := Calm.memAlloc s p.sizeofContext
  cases alloc : s.heap.memAlloc p.sizeofContext with
  | mk new heap =>
  rw [alloc] at context
  cases new with
  | none => exact context
  | some new =>
      refine context.trans ?_
      dsimp only
      set sp := (s.heap.coroutine (.service a)).currContext.sp
      have stacking : Calm { s with heap }
          { s with heap := (if sp = 0 then (none, heap) else heap.memAlloc sp).2 } := by
        split
        · exact .refl _
        · exact Calm.memAlloc { s with heap } sp
      cases stacked : (if sp = 0 then (none, heap) else heap.memAlloc sp) with
      | mk stack heap' =>
      rw [stacked] at stacking
      refine stacking.trans ?_
      dsimp only
      split
      · exact Calm.memFree { s with heap := heap' } (some new) p.sizeofContext
      · refine Calm.trans ?_ (.setService _ a _)
        cases stack with
        | none => exact .refl _
        | some b => exact .heap _ rfl rfl rfl

/-- The preparation of a record changes nothing else, whether it succeeds or not. -/
theorem prepareRecord_calm (a : Addr) (seqno : UInt32) (buffer : Addr) (s : Server)
    : match prepareRecord p a seqno buffer s with
      | .stop s' => Calm s s'
      | .go _ s' => Calm s s' := by
  unfold prepareRecord
  dsimp only
  have record := Calm.memAlloc s p.sizeofInFlightInfos
  cases alloc : s.heap.memAlloc p.sizeofInFlightInfos with
  | mk addr heap =>
  rw [alloc] at record
  cases addr with
  | none => exact record.trans (.memFree { s with heap } (some buffer) p.outputBufferSize)
  | some addr =>
      dsimp only
      by_cases persistent : (s.service a).isPersistent
      · rw [if_pos persistent]
        exact record
      · rw [if_neg persistent]
        have backup := Calm.contextBackup p a addr seqno s.currOutput.serviceHeader { s with heap }
        cases backed : contextBackup p a addr seqno s.currOutput.serviceHeader { s with heap } with
        | mk done s' =>
        rw [backed] at backup
        cases done with
        | true => exact record.trans backup
        | false =>
            exact (record.trans backup).trans
              ((Calm.memFree s' (some buffer) p.outputBufferSize).trans
                (.memFree { s' with heap := s'.heap.memFree (some buffer) p.outputBufferSize }
                  (some addr) p.sizeofInFlightInfos))

/-- The header form under which a segment is generated: the one of its record when it is
generated again, and else the one of the service.
-/
def headerBefore (s : Server) (a : Addr) (seqno : UInt32) (retransmitting : Bool) : ServiceHeader :=
  if retransmitting then
    match ifSelect (s.service a) seqno with
    | some r => r.serviceHeader
    | none => .none
  else (s.service a).serviceHeader

/-- The status of the context from which a segment is generated. -/
def statusBefore (s : Server) (a : Addr) (seqno : UInt32) (retransmitting : Bool) : CrStatus :=
  let current := (s.heap.coroutine (.service a)).currContext.status
  if retransmitting then
    match ifSelect (s.service a) seqno with
    | some ⟨_, _, .context _ context, _⟩ => context.status
    | _ => current
  else current

/-- A requirement on the lengths that the next run of a service may leave, whether it ends or
not: met by all lengths up to the limit of `out_c`, or by what a function writes in all that
stays below the limit.
-/
def Stores (s : Server) (a : Addr) (status : CrStatus) (allowed : Bool → Nat → Prop) : Prop :=
  ((∀ ended n, n ≤ s.currOutput.maxBytes.toNat → allowed ended n)
      ∧ (status ≠ .active ∨ 1 ≤ s.currOutput.maxBytes.toNat))
    ∨ (status = .ready
      ∧ ∀ k, startOutput p s.heap (s.heap.coroutine (.service a)).func = some k
        → (outputs k).length ≤ s.currOutput.maxBytes.toNat ∧ ∀ n ≤ (outputs k).length, allowed true n)

variable {p} in
/-- The bound does not depend on the bookkeeping. -/
theorem Stores.of_calm {s s' : Server} {a : Addr} {status : CrStatus}
    {allowed : Bool → Nat → Prop} (stores : Stores p s a status allowed) (calm : Calm s s')
    : Stores p s' a status allowed := by
  unfold Stores at *
  rwa [calm.currOutput, calm.coroutine, startOutput_congr p calm.chars calm.starts]

variable {p} in
/-- A run of the output coroutine leaves an allowed length. -/
theorem runOutput_allowed {a : Addr} {postOut : Bool} {s : Server} {heap : Heap}
    {frame : Option Frame} {bytes : List UInt8} {allowed : Bool → Nat → Prop}
    (run : runOutput p a postOut s.currOutput.maxBytes s.heap = some ((frame, bytes), heap))
    (stores : Stores p s a (s.heap.coroutine (.service a)).currContext.status allowed)
    : bytes.length < 65536 ∧ allowed frame.isNone bytes.length := by
  have limit := s.currOutput.maxBytes.toNat_lt
  rcases stores with ⟨within, room⟩ | ⟨ready, short⟩
  · have length := runOutput_length_le p run room
    exact ⟨length.trans_lt limit, within _ _ length⟩
  · obtain ⟨k, start, rfl, rfl⟩ := runOutput_ready p run ready
    obtain ⟨le, fits⟩ := short k start
    have ends : (produce s.currOutput.maxBytes k []).1 = none :=
      produce_ends k (by simpa using le)
    have length := produce_length_le_outputs (m := s.currOutput.maxBytes) k []
    rw [List.length_nil, Nat.zero_add] at length
    rw [ends]
    exact ⟨by omega, fits _ length⟩

variable {p} in
/-- A run of a generator into a new buffer. -/
theorem runGenerator_spec {i : Nat} {a : Addr} {c : HttpConnection} {buffer : Addr} {s s' : Server}
    {ended : Bool} {n : Nat} {allowed : Bool → Nat → Prop}
    (run : runGenerator p i a c buffer s = some (ended, s')) (here : s.http i = some c)
    (stores : Stores p s a (s.heap.coroutine (.service a)).currContext.status allowed)
    (within : ∀ ended k, allowed ended k → k ≤ n)
    : Quiet p n s s'
      ∧ allowed ended s'.currOutput.contentLength.toNat
      ∧ s'.currOutput.serviceHeader = s.currOutput.serviceHeader
      ∧ s'.currOutput.buffer = some buffer := by
  unfold runGenerator at run
  cases out : runOutput p a (isPostOut s c) s.currOutput.maxBytes s.heap with
  | none => simp [out] at run
  | some result =>
  obtain ⟨⟨frame, bytes⟩, heap⟩ := result
  obtain ⟨small, fits⟩ := runOutput_allowed out stores
  have chars := runOutput_chars p out
  simp only [out, Option.bind_eq_bind, Option.bind_some] at run
  set o := { s.currOutput with
    buffer := some buffer, contentLength := UInt16.ofNat bytes.length }
  set stored : Server := { s with heap := heap.storeBytes buffer bytes }
  have quiet : Quiet p n s (stored.setOutput o) := by
    refine ⟨rfl, rfl, rfl, fun _ _ mem => mem, fun b j hj => ?_⟩
    show (heap.storeBytes buffer bytes).chars b j = _
    rw [Heap.storeBytes_chars_of_le heap (within _ _ fits) b hj, chars]
  have content : o.contentLength.toNat = bytes.length := by
    show (UInt16.ofNat bytes.length).toNat = bytes.length
    rw [UInt16.toNat_ofNat']
    omega
  rw [← content] at fits
  cases frame with
  | some frame =>
      simp only [Option.some.injEq, Prod.mk.injEq] at run
      obtain ⟨rfl, rfl⟩ := run
      exact ⟨quiet.trans (.heap _ (by simp)), fits, rfl, rfl⟩
  | none =>
      simp only [Option.some.injEq, Prod.mk.injEq] at run
      obtain ⟨rfl, rfl⟩ := run
      unfold cleanPostData
      split
      · exact ⟨quiet.trans (.heap _ (by simp)), fits, rfl, rfl⟩
      · refine ⟨quiet.trans ((Quiet.heap _ (by simp)).trans
          (Quiet.setRequest _ (by exact here))), fits, rfl, rfl⟩

variable {p} in
/-- The context of a segment that is generated again is restored first: the context is the one
of its record, and nothing is stored.
-/
theorem contextRestore_spec (a : Addr) (seqno : UInt32) (s : Server)
    : ∃ record s', contextRestore a seqno s = (record, s')
      ∧ record = ifSelect (s.service a) seqno
      ∧ s'.connections = s.connections ∧ s'.sent = s.sent ∧ s'.outputDone = s.outputDone
      ∧ s'.packetCalls = s.packetCalls ∧ s'.currOutput = s.currOutput ∧ s'.service = s.service ∧ s'.heap.chars = s.heap.chars ∧ s'.heap.starts = s.heap.starts
      ∧ (s'.heap.coroutine (.service a)).func = (s.heap.coroutine (.service a)).func
      ∧ (s'.heap.coroutine (.service a)).currContext.status = statusBefore s a seqno true := by
  unfold contextRestore statusBefore
  cases found : ifSelect (s.service a) seqno with
  | none => exact ⟨none, s, rfl, rfl, rfl, rfl, rfl, rfl, rfl, rfl, rfl, rfl, rfl, rfl⟩
  | some r =>
      obtain ⟨addr, next, infos, header⟩ := r
      cases infos with
      | buffer b => exact ⟨_, s, rfl, rfl, rfl, rfl, rfl, rfl, rfl, rfl, rfl, rfl, rfl, rfl⟩
      | context b context =>
          dsimp only
          cases context.stack with
          | none => refine ⟨_, _, rfl, rfl, rfl, rfl, rfl, rfl, rfl, rfl, rfl, rfl, ?_, ?_⟩ <;> simp
          | some d =>
              refine ⟨_, _, rfl, rfl, rfl, rfl, rfl, rfl, rfl, rfl, rfl, rfl, ?_, ?_⟩ <;>
                simp [Heap.setContext, Heap.setCoroutine]

/-- A segment that is set up: the header form, the status and the function are those it starts
from.
-/
structure SetUp (s : Server) (a : Addr) (seqno : UInt32) (retransmitting : Bool) (s' : Server)
    : Prop where
  connections : s'.connections = s.connections
  sent : s'.sent = s.sent
  outputDone : s'.outputDone = s.outputDone
  packetCalls : s'.packetCalls = s.packetCalls
  output : s'.currOutput = { s.currOutput with
    serviceHeader := headerBefore s a seqno retransmitting
    contentLength := 0
    buffer := none
  }
  service : s'.service = s.service
  chars : s'.heap.chars = s.heap.chars
  starts : s'.heap.starts = s.heap.starts
  func : (s'.heap.coroutine (.service a)).func = (s.heap.coroutine (.service a)).func
  status : (s'.heap.coroutine (.service a)).currContext.status
    = statusBefore s a seqno retransmitting

theorem setupSegment_spec (s : Server) (a : Addr) (seqno : UInt32) (retransmitting : Bool)
    : SetUp s a seqno retransmitting (setupSegment a seqno retransmitting s) := by
  cases retransmitting with
  | false => exact ⟨rfl, rfl, rfl, rfl, rfl, rfl, rfl, rfl, rfl, rfl⟩
  | true =>
      obtain ⟨record, s', restore, found, conns, sent, done, calls, output, service, chars, starts,
        func, status⟩ := contextRestore_spec a seqno s
      unfold setupSegment setupHeader
      cases record with
      | none =>
          simp only [restore, if_true]
          exact ⟨conns, sent, done, calls,
            by simp [Server.setOutput, output, headerBefore, ← found], service, chars, starts, func,
            status⟩
      | some r =>
          simp only [restore, if_true]
          exact ⟨conns, sent, done, calls,
            by simp [Server.setOutput, output, headerBefore, ← found], service, chars, starts, func,
            status⟩

variable {p} in
theorem SetUp.quiet {n : Nat} {s s' : Server} {a : Addr} {seqno : UInt32} {retransmitting : Bool}
    (h : SetUp s a seqno retransmitting s')
    : Quiet p n s s' :=
  .of_connections h.connections h.sent h.chars

variable {p} in
theorem SetUp.stores {s s' : Server} {a : Addr} {seqno : UInt32} {retransmitting : Bool}
    {allowed : Bool → Nat → Prop} (h : SetUp s a seqno retransmitting s')
    (stores : Stores p s a (statusBefore s a seqno retransmitting) allowed)
    : Stores p s' a (s'.heap.coroutine (.service a)).currContext.status allowed := by
  unfold Stores at *
  rwa [h.status, h.func, startOutput_congr p h.chars h.starts,
    show s'.currOutput.maxBytes = s.currOutput.maxBytes by rw [h.output]]

/-- How a generation ends: it is quiet, and when it succeeds the header form is kept and the
length is an allowed one.
-/
def Generated (n : Nat) (allowed : Bool → Nat → Prop) (s : Server) : Progress Bool → Prop
  | .stop s' => Quiet p n s s'
  | .go ended s' =>
      Quiet p n s s'
        ∧ allowed ended s'.currOutput.contentLength.toNat
        ∧ s'.currOutput.serviceHeader = s.currOutput.serviceHeader

variable {p} in
/-- A run of a generator after the bookkeeping. -/
theorem runGenerator_of_calm {i : Nat} {a : Addr} {c : HttpConnection} {buffer : Addr}
    {s s1 s2 : Server} {ended : Bool} {n : Nat} {allowed : Bool → Nat → Prop} (calm : Calm s s1)
    (run : runGenerator p i a c buffer s1 = some (ended, s2)) (here : s.http i = some c)
    (stores : Stores p s a (s.heap.coroutine (.service a)).currContext.status allowed)
    (within : ∀ ended k, allowed ended k → k ≤ n)
    : Generated p n allowed s (.go ended s2) := by
  have stores1 := stores.of_calm calm
  rw [← calm.coroutine] at stores1
  obtain ⟨quiet, content, header, -⟩ :=
    runGenerator_spec run (by rw [calm.http]; exact here) stores1 within
  exact ⟨calm.quiet.trans quiet, content, by rw [header, calm.currOutput]⟩

variable {p} in
theorem recordBuffer_quiet {n : Nat} (a addr : Addr) (seqno : UInt32) (buffer : Addr) (s : Server)
    : Quiet p n s (recordBuffer a addr seqno buffer s)
      ∧ (recordBuffer a addr seqno buffer s).currOutput = s.currOutput := by
  unfold recordBuffer
  dsimp only
  split
  · exact ⟨.setService s a _, rfl⟩
  · exact ⟨.refl _ s, rfl⟩

variable {p} in
/-- A first generation. -/
theorem generateNew_spec {i : Nat} {a : Addr} {c : HttpConnection} {s : Server}
    {progress : Progress Bool} {n : Nat} {allowed : Bool → Nat → Prop}
    (run : generateNew p i a c s = some progress) (here : s.http i = some c)
    (stores : Stores p s a (s.heap.coroutine (.service a)).currContext.status allowed)
    (within : ∀ ended k, allowed ended k → k ≤ n)
    : Generated p n allowed s progress := by
  unfold generateNew at run
  have calm := Calm.memAlloc s p.outputBufferSize
  cases alloc : s.heap.memAlloc p.outputBufferSize with
  | mk buffer heap =>
  rw [alloc] at calm run
  cases buffer with
  | none =>
      simp only [Option.some.injEq] at run
      subst run
      exact calm.quiet
  | some buffer =>
      dsimp only at run
      have recorded := prepareRecord_calm p a c.nextOutseqno buffer { s with heap }
      cases record : prepareRecord p a c.nextOutseqno buffer { s with heap } with
      | stop s1 =>
          rw [record] at recorded run
          simp only [Option.some.injEq] at run
          subst run
          exact (calm.trans recorded).quiet
      | go addr s1 =>
          rw [record] at recorded run
          simp only [Option.map_eq_some_iff] at run
          obtain ⟨⟨ended, s2⟩, out, rfl⟩ := run
          obtain ⟨quiet, content, header⟩ :=
            runGenerator_of_calm (calm.trans recorded) out here stores within
          obtain ⟨quiet', output⟩ :=
            recordBuffer_quiet (n := n) a addr c.nextOutseqno buffer s2
          exact ⟨quiet.trans quiet', by rw [output]; exact content, by rw [output]; exact header⟩

variable {p} in
/-- A second generation. -/
theorem regenerate_spec {i : Nat} {a : Addr} {c : HttpConnection} {s : Server}
    {progress : Progress Bool} {n : Nat} {allowed : Bool → Nat → Prop}
    (run : regenerate p i a c s = some progress) (here : s.http i = some c)
    (stores : Stores p s a (s.heap.coroutine (.service a)).currContext.status allowed)
    (within : ∀ ended k, allowed ended k → k ≤ n)
    : Generated p n allowed s progress := by
  unfold regenerate at run
  have calm := Calm.memAlloc s p.outputBufferSize
  cases alloc : s.heap.memAlloc p.outputBufferSize with
  | mk buffer heap =>
  rw [alloc] at calm run
  cases buffer with
  | none =>
      simp only [Option.some.injEq] at run
      subst run
      exact calm.quiet
  | some buffer =>
      simp only [Option.map_eq_some_iff] at run
      obtain ⟨⟨ended, s1⟩, out, rfl⟩ := run
      exact runGenerator_of_calm calm out here stores within

variable {p} in
/-- The generation of a segment is quiet, and when it succeeds the header form and an allowed
length are in `curr_output`.
-/
theorem generate_spec {i : Nat} {a : Addr} {c : HttpConnection} {retransmitting : Bool}
    {s : Server} {progress : Progress Bool} {n : Nat} {allowed : Bool → Nat → Prop}
    (run : generate p i a c retransmitting s = some progress) (here : s.http i = some c)
    (stores : Stores p s a (statusBefore s a c.nextOutseqno retransmitting) allowed)
    (within : ∀ ended k, allowed ended k → k ≤ n)
    : match progress with
      | .stop s' => Quiet p n s s'
      | .go ended s' =>
          Quiet p n s s'
            ∧ allowed ended s'.currOutput.contentLength.toNat
            ∧ s'.currOutput.serviceHeader = headerBefore s a c.nextOutseqno retransmitting := by
  have setUp := setupSegment_spec s a c.nextOutseqno retransmitting
  unfold generate at run
  set s1 := setupSegment a c.nextOutseqno retransmitting s
  have header1 : s1.currOutput.serviceHeader = headerBefore s a c.nextOutseqno retransmitting := by
    rw [setUp.output]
  have here1 : s1.http i = some c := by
    rw [← here]
    unfold Server.http
    rw [setUp.connections]
  have generated : Generated p n allowed s1 progress := by
    dsimp only at run
    split_ifs at run
    · rename_i terminated
      simp only [Option.some.injEq] at run
      subst run
      refine ⟨.refl _ s1, ?_, rfl⟩
      rw [setUp.output]
      rw [setUp.status] at terminated
      rcases stores with ⟨within, -⟩ | ⟨ready, -⟩
      · exact within true 0 (Nat.zero_le _)
      · simp [terminated] at ready
    · exact regenerate_spec run here1 (setUp.stores stores) within
    · exact generateNew_spec run here1 (setUp.stores stores) within
  cases progress with
  | stop s' => exact setUp.quiet.trans generated
  | go ended s' =>
      exact ⟨setUp.quiet.trans generated.1, generated.2.1, generated.2.2.trans header1⟩

end Smews.Output
