import Smews.System.Ring
import Smews.Output.Pending

/-! Packets above IP and their replies: every packet that a handler wants to answer is answered once, by
the same handler, and its connection is freed with the answer.
-/

namespace Smews.System

open Smews.Core Input Output Runs

variable {p : Program}

--------------------------------------------------
-- The property
--------------------------------------------------

/-- A call of `doPacketOut`, made or to be made: the handler, and the connection as it sees it. -/
abbrev Exchange := HandlerRef × ConnectionInfo

/-- The packets for which `doPacketIn` returned a value other than 0, each with this value. -/
def accepted (calls : List PacketCall) : List Exchange :=
  calls.filterMap fun
    | .packetIn h info _ code => if code = 0 then none else some (h, { info with sendCode := code })
    | .packetOut _ _ => none

/-- The calls of `doPacketOut` that were made. -/
def answered (calls : List PacketCall) : List Exchange :=
  calls.filterMap fun
    | .packetIn _ _ _ _ => none
    | .packetOut h info => some (h, info)

@[simp] theorem accepted_append (calls more : List PacketCall)
    : accepted (calls ++ more) = accepted calls ++ accepted more :=
  List.filterMap_append ..

@[simp] theorem answered_append (calls more : List PacketCall)
    : answered (calls ++ more) = answered calls ++ answered more :=
  List.filterMap_append ..

@[simp] theorem accepted_packetIn (h : HandlerRef) (info : ConnectionInfo) (payload : List UInt8)
    (code : UInt8)
    : accepted [.packetIn h info payload code]
      = if code = 0 then [] else [(h, { info with sendCode := code })] := by
  by_cases zero : code = 0 <;> simp [accepted, zero]

@[simp] theorem accepted_packetOut (h : HandlerRef) (info : ConnectionInfo)
    : accepted [.packetOut h info] = [] :=
  rfl

@[simp] theorem answered_packetIn (h : HandlerRef) (info : ConnectionInfo) (payload : List UInt8)
    (code : UInt8)
    : answered [.packetIn h info payload code] = [] :=
  rfl

@[simp] theorem answered_packetOut (h : HandlerRef) (info : ConnectionInfo)
    : answered [.packetOut h info] = [(h, info)] :=
  rfl

/-- The call of `doPacketOut` that a connection waits for. -/
def exchangeOf (k : Connection) : Option Exchange :=
  match k.protocol with
  | .http _ => none
  | .gpip c => some (c.outputHandler, c.info k.addr)

/-- The calls of `doPacketOut` that the ring waits for. -/
def awaited (s : Server) : List Exchange := s.connections.filterMap exchangeOf

/-- The replies of a handler that the ring waits for. -/
def waiting (h : HandlerRef) (s : Server) : List Exchange := (awaited s).filter (·.1 = h)

/-- A packet above IP arrives. When a handler is registered for its protocol and a connection can be
allocated, `doPacketIn` is called; the connection is freed when it returns 0, and waits otherwise.
-/
def Arrives (p : Program) (srcAddr : UInt32) (protocol : UInt8) (payload : List UInt8) (s s' : Server)
    : Prop :=
  match p.gpIpGetOutputHandler protocol, s.heap.memAlloc p.sizeofConnection with
  | some h, (some a, heap) =>
      ∃ info code, info.connection = a ∧ info.remoteIp = srcAddr ∧ info.protocol = protocol
        ∧ s'.packetCalls = s.packetCalls ++ [.packetIn h info payload code]
        ∧ (code = 0 → awaited s' = awaited s ∧ s'.heap = heap.memFree (some a) p.sizeofConnection)
        ∧ (code ≠ 0 → awaited s' = awaited s ++ [(h, { info with sendCode := code })])
  | _, _ => s'.packetCalls = s.packetCalls ∧ awaited s' = awaited s

/-- One of the awaited calls of `doPacketOut` is made: its packet is emitted, and its connection leaves
the ring and is freed.
-/
def Answers (p : Program) (s s' : Server) : Prop :=
  ∃ h info content, s'.packetCalls = s.packetCalls ++ [.packetOut h info]
    ∧ (awaited s).Perm ((h, info) :: awaited s')
    ∧ s'.sent = s.sent ++ [(some info.connection,
        { destination := info.remoteIp, body := .gpip info.protocol content })]
    ∧ s'.heap = s.heap.memFree (some info.connection) p.sizeofConnection

/-- No handler above IP is called, and no connection above IP comes or goes. -/
def NoExchange (s s' : Server) : Prop :=
  s'.packetCalls = s.packetCalls ∧ (awaited s').Perm (awaited s)

/-- What a step does to the packets above IP. -/
def ExchangeStep (p : Program) (s : Server) (event : Event) (s' : Server) : Prop :=
  Step p s event s' ∧ match event with
    | .receiveGpIp srcAddr protocol payload => Arrives p srcAddr protocol payload s s'
    | .send => Answers p s s' ∨ NoExchange s s'
    | _ => NoExchange s s'

/-- Whether an event is a packet that arrives. -/
def Event.isArrival : Event → Bool
  | .receive _ | .receiveGpIp _ _ _ => true
  | _ => false

/-- Whether an application asks for a call of `doPacketOut` by itself. -/
def Event.isRequest : Event → Bool
  | .packetOut _ _ => true
  | _ => false

--------------------------------------------------
-- The ring
--------------------------------------------------

section Views

variable {s s' : Server}

theorem awaited_append {ring ring' : List Connection} (eq : s.connections = ring ++ ring')
    : awaited s = ring.filterMap exchangeOf ++ ring'.filterMap exchangeOf := by
  rw [awaited, eq, List.filterMap_append]

theorem awaited_perm (perm : s'.connections.Perm s.connections) : (awaited s').Perm (awaited s) :=
  perm.filterMap exchangeOf

theorem waiting_perm {h : HandlerRef} (perm : (awaited s').Perm (awaited s))
    : (waiting h s').Perm (waiting h s) :=
  perm.filter _

theorem awaited_views (s : Server) : awaited s = (s.connections.map exchangeOf).filterMap id := by
  rw [awaited, List.filterMap_map]
  rfl

theorem awaited_of_views (same : s'.connections.map exchangeOf = s.connections.map exchangeOf)
    : awaited s' = awaited s := by
  rw [awaited_views, awaited_views, same]

theorem setHttp_views {i : Nat} {a : Addr} {c c' : HttpConnection}
    (at_i : s.connections[i]? = some ⟨a, .http c⟩)
    : (s.setHttp i c').connections.map exchangeOf = s.connections.map exchangeOf := by
  apply List.ext_getElem?
  intro j
  simp only [Server.setHttp, List.getElem?_map, List.getElem?_modify]
  by_cases own : i = j
  · subst own
    simp [at_i, exchangeOf]
  · simp [own]

theorem mapHttp_views (f : HttpConnection → HttpConnection) (s : Server)
    : (mapHttp f s).connections.map exchangeOf = s.connections.map exchangeOf := by
  simp only [mapHttp, List.map_map]
  refine List.map_congr_left fun k _ => ?_
  obtain ⟨a, protocol⟩ := k
  cases protocol <;> rfl

theorem served_views {h : HandlerRef} {ring ring' : List Connection}
    (served : List.Forall₂ (ServedBy h) ring ring')
    : ring'.map exchangeOf = ring.map exchangeOf := by
  induction served with
  | nil => rfl
  | @cons k k' _ _ first _ ih =>
      have same : exchangeOf k' = exchangeOf k := by
        rcases first with rfl | ⟨c, c', isHttp, rfl, -⟩
        · rfl
        · simp [exchangeOf, isHttp]
      rw [List.map_cons, List.map_cons, same, ih]

/-- The ring after an HTTP connection was served, the last one of it. -/
theorem serves_views {before : List Connection} {a : Addr} {c : HttpConnection}
    (ring : s.connections = before ++ [⟨a, .http c⟩]) (serves : Serves p s before a c s')
    : s'.connections.map exchangeOf = before.map exchangeOf
      ∨ s'.connections.map exchangeOf = before.map exchangeOf ++ [none] := by
  cases serves with
  | ack _ _ ring' | control _ _ _ _ _ _ ring' =>
      rcases ring' with ⟨-, ring'⟩ | ⟨-, ring'⟩
      · exact .inl (by rw [ring'])
      · exact .inr (by simp [ring', exchangeOf])
  | file _ _ _ _ _ _ _ _ _ ring' => exact .inr (by simp [ring', exchangeOf])
  | generator _ _ _ _ _ _ _ served =>
      right
      rw [served_views served.ring, ring]
      simp [exchangeOf]

/-- An HTTP connection is served without a call of a handler above IP. -/
theorem sendControl_calls {i : Nat} {old : Option HandlerRef}
    (send : sendControl p i old s = some s')
    : s'.packetCalls = s.packetCalls := by
  unfold sendControl at send
  rw [Option.bind_eq_bind, Option.bind_eq_some_iff] at send
  obtain ⟨t, emits, send⟩ := send
  obtain ⟨_, _, _, _, -, -, -, rfl⟩ := sendPacket_spec emits
  rw [Option.bind_eq_bind, Option.bind_eq_some_iff] at send
  obtain ⟨c', -, send⟩ := send
  dsimp only at send
  split at send
  · exact (freeConnection_unheard send).packetCalls
  split at send
  · cases send
    rfl
  · split at send <;> cases send <;> rfl

theorem sendHttp_calls {i : Nat} (send : sendHttp p i s = some s')
    : s'.packetCalls = s.packetCalls := by
  unfold sendHttp at send
  rw [Option.bind_eq_bind, Option.bind_eq_some_iff] at send
  obtain ⟨c, here, send⟩ := send
  split at send
  · exact (sendControl_calls send).trans rfl
  rw [Option.bind_eq_bind, Option.bind_eq_some_iff] at send
  obtain ⟨h, handler, send⟩ := send
  split at send
  · exact sendControl_calls send
  · obtain ⟨_, _, _, _, -, -, -, rfl⟩ := sendPacket_spec send
    rfl
  case h_3 resource data => exact (sendGenerator_served send data here handler).packetCalls
  · cases send

end Views

--------------------------------------------------
-- The steps
--------------------------------------------------

section Steps

variable {s s' : Server}

/-- The connection that was chosen is the last of the ring. -/
theorem smewsSend_http {i : Nat} {before : List Connection} {a : Addr} {c : HttpConnection}
    (send : smewsSend p s = some s') (rst : s.rstConnection.port = 0)
    (chosen : s.connections.findIdx? (·.ableToSend p) = some i)
    (ring : (rotate i s).connections = before ++ [⟨a, .http c⟩])
    : sendHttp p before.length (rotate i s) = some s' := by
  have length : (rotate i s).connections.length - 1 = before.length := by simp [ring]
  have at_last : (rotate i s).connections[before.length]? = some ⟨a, .http c⟩ := by simp [ring]
  unfold smewsSend at send
  rw [if_neg (not_not.mpr rst), chosen] at send
  simpa only [length, at_last, Option.bind_eq_bind, Option.bind_some] using send

/-- A call of `smews_send` serves a connection above IP, or leaves them all. -/
theorem smewsSend_answers (send : smewsSend p s = some s')
    : (∃ i before a c, s.rstConnection.port = 0
        ∧ s.connections.findIdx? (·.ableToSend p) = some i
        ∧ (rotate i s).connections = before ++ [⟨a, .gpip c⟩]
        ∧ GpIpAnswered p a c before (rotate i s) s')
      ∨ NoExchange s s' := by
  cases smewsSend_sends send with
  | nothing _ _ same | reset _ same =>
      subst same
      exact .inr ⟨rfl, .refl _⟩
  | gpip i before a c rst chosen ring answered =>
      exact .inl ⟨i, before, a, c, rst, chosen, ring, answered⟩
  | http i before a c rst chosen _ ring serves =>
      refine .inr ⟨(sendHttp_calls (smewsSend_http send rst chosen ring)).trans rfl, ?_⟩
      refine .trans ?_ (awaited_perm (rotate_perm i s))
      have own : [Connection.mk a (.http c)].map exchangeOf = [none] := rfl
      rw [awaited_views, awaited_views (rotate i s), ring, List.map_append, own]
      rcases serves_views ring serves with views | views
      · rw [views, List.filterMap_append]
        exact .of_eq (List.append_nil _).symm
      · rw [views]

/-- The connection that is chosen comes last after the rotation. -/
theorem chosen_last {i : Nat} {before : List Connection} {k : Connection}
    (chosen : s.connections.findIdx? (·.ableToSend p) = some i)
    (ring : (rotate i s).connections = before ++ [k])
    : s.connections[i]? = some k := by
  obtain ⟨lt, -, -⟩ := List.findIdx?_eq_some_iff_getElem.mp chosen
  have last := rotate_last (List.getElem?_eq_getElem lt)
  rw [ring] at last
  obtain ⟨-, same⟩ := List.append_inj' last rfl
  rw [List.getElem?_eq_getElem lt, (List.cons.inj same).1]

/-- The connection that is served was awaited. -/
theorem answered_perm {i : Nat} {before : List Connection} {a : Addr} {c : GpIpConnection}
    (ring : (rotate i s).connections = before ++ [⟨a, .gpip c⟩])
    (answered : GpIpAnswered p a c before (rotate i s) s')
    : (awaited s).Perm ((c.outputHandler, c.info a) :: awaited s') := by
  refine ((ring ▸ rotate_perm i s).symm.filterMap exchangeOf).trans ?_
  rw [List.filterMap_append, awaited, answered.ring]
  exact List.perm_append_singleton _ _

theorem smewsSend_exchanges (send : smewsSend p s = some s')
    : Answers p s s' ∨ NoExchange s s' := by
  rcases smewsSend_answers send with ⟨i, before, a, c, -, -, ring, answered⟩ | same
  · obtain ⟨g, -, sent⟩ := answered.sent
    exact .inl ⟨c.outputHandler, c.info a, _, answered.calls, answered_perm ring answered, sent,
      answered.freed⟩
  · exact .inr same

theorem smewsReceive_noExchange {seg : TcpSegment} (step : smewsReceive p seg s = some s')
    : NoExchange s s' := by
  refine ⟨(smewsReceive_unheard step).packetCalls, ?_⟩
  cases smewsReceive_receives step with
  | ignored ring => exact awaited_perm (.of_eq ring)
  | stored i a c _ _ _ at_i _ _ _ _ _ ring =>
      have views : s'.connections.map exchangeOf = s.connections.map exchangeOf := by
        rw [ring, setHttp_views at_i]
      rw [awaited_of_views views]
  | freed i a c at_i ring =>
      obtain ⟨lt, eq⟩ := List.getElem?_eq_some_iff.mp at_i
      have split : s.connections = s.connections.take i ++ ⟨a, .http c⟩ :: s.connections.drop (i + 1) := by
        rw [← eq, List.getElem_cons_drop, List.take_append_drop]
      rw [awaited_append ring, awaited_append split, List.filterMap_cons]
      exact List.perm_append_comm
  | added a c _ _ _ ring =>
      rw [awaited_append ring]
      exact .of_eq (List.append_nil _)

theorem smewsReceiveGpIp_arrives {srcAddr : UInt32} {protocol : UInt8} {payload : List UInt8}
    (step : smewsReceiveGpIp p srcAddr protocol payload s = some s')
    : Arrives p srcAddr protocol payload s s' := by
  unfold Arrives
  cases smewsReceiveGpIp_receives step with
  | unknown handler same =>
      rw [handler, same]
      exact ⟨rfl, rfl⟩
  | exhausted heap alloc same =>
      rw [alloc, same]
      cases p.gpIpGetOutputHandler protocol <;> exact ⟨rfl, rfl⟩
  | dropped h g a heap handler _ alloc _ same =>
      rw [handler, alloc, same]
      exact ⟨_, 0, rfl, rfl, rfl, rfl, fun _ => ⟨rfl, rfl⟩, fun nonzero => absurd rfl nonzero⟩
  | accepted h g a heap code handler _ alloc _ nonzero same =>
      rw [handler, alloc, same]
      refine ⟨_, code, rfl, rfl, rfl, rfl, fun zero => absurd zero nonzero, fun _ => ?_⟩
      exact List.filterMap_append ..

/-- The handler above IP of a protocol was registered for it. -/
theorem handler_protocol {protocol : UInt8} {h : HandlerRef} {g : GpIpHandlers}
    (handler : p.gpIpGetOutputHandler protocol = some h) (data : (p.handler h).data = .generalIp g)
    : g.protocol = protocol := by
  unfold Program.gpIpGetOutputHandler at handler
  rw [Option.map_eq_some_iff] at handler
  obtain ⟨i, found, rfl⟩ := handler
  have registered := List.find?_some found
  rw [Program.handler] at data
  simpa only [data, decide_eq_true_eq] using registered

/-- A request adds no connection of another handler. -/
theorem requestPacketOutCall_waiting {h : HandlerRef} {protocol : UInt8} {address : UInt32}
    (other : p.gpIpGetOutputHandler protocol ≠ some h)
    : waiting h (requestPacketOutCall p protocol address s) = waiting h s := by
  unfold requestPacketOutCall
  cases handler : p.gpIpGetOutputHandler protocol with
  | none => rfl
  | some h' =>
      dsimp only
      unfold Server.addConnection
      split
      · rfl
      · have own : h' ≠ h := fun same => other (same ▸ handler)
        rw [waiting, awaited_append rfl, List.filter_append]
        simp [exchangeOf, own, waiting, awaited]

/-- Every step that is no request exchanges packets. -/
theorem step_exchanges {event : Event} (step : Step p s event s') (quiet : ¬ event.isRequest)
    : ExchangeStep p s event s' := by
  refine ⟨step, ?_⟩
  cases event with
  | receive seg => exact smewsReceive_noExchange step
  | receiveGpIp srcAddr protocol payload => exact smewsReceiveGpIp_arrives step
  | send => exact smewsSend_exchanges step
  | retransmit =>
      cases step
      exact ⟨rfl, .of_eq (awaited_of_views (mapHttp_views _ _))⟩
  | push handler =>
      cases step
      refine ⟨(serverPush_unheard handler s).packetCalls, .of_eq ?_⟩
      unfold serverPush
      split
      · exact awaited_of_views (mapHttp_views _ _)
      · rfl
  | packetOut _ _ => exact absurd rfl quiet

/-- The calls made and the calls awaited are those of the packets accepted. -/
def Matched (s : Server) : Prop :=
  (answered s.packetCalls ++ awaited s).Perm (accepted s.packetCalls)

theorem NoExchange.matched (same : NoExchange s s') (matched : Matched s) : Matched s' := by
  rw [Matched, same.1]
  exact (same.2.append_left _).trans matched

/-- A step keeps the calls matched. -/
theorem ExchangeStep.matched {event : Event} (step : ExchangeStep p s event s') (matched : Matched s)
    : Matched s' := by
  obtain ⟨-, exchanges⟩ := step
  cases event with
  | receiveGpIp srcAddr protocol payload =>
      dsimp only at exchanges
      unfold Arrives at exchanges
      split at exchanges
      · obtain ⟨info, code, -, -, -, calls, dropped, waits⟩ := exchanges
        rw [Matched, calls, answered_append, accepted_append, answered_packetIn, accepted_packetIn,
          List.append_nil]
        by_cases zero : code = 0
        · rw [(dropped zero).1, if_pos zero, List.append_nil]
          exact matched
        · rw [waits zero, if_neg zero, ← List.append_assoc]
          exact matched.append_right _
      · exact NoExchange.matched ⟨exchanges.1, .of_eq exchanges.2⟩ matched
  | send =>
      rcases exchanges with ⟨h, info, content, calls, ring, -, -⟩ | same
      · rw [Matched, calls, answered_append, accepted_append, answered_packetOut,
          accepted_packetOut, List.append_nil, List.append_assoc, List.singleton_append]
        exact (ring.symm.append_left _).trans matched
      · exact NoExchange.matched same matched
  | _ => exact NoExchange.matched exchanges matched

end Steps

--------------------------------------------------
-- The calls are made
--------------------------------------------------

section Ends

variable {s s' : Server}

/-- A reset that waits to be sent is sent first. -/
def resets (s : Server) : Nat := if s.rstConnection.port = 0 then 0 else 1

/-- Every connection above IP is served by one of the next `n` calls of `smews_send`. -/
def Due (n : Nat) (s : Server) : Prop :=
  ∀ j x, (s.connections.map exchangeOf)[j]? = some (some x) → j + resets s < n

theorem Due.mono {m n : Nat} (due : Due m s) (le : m ≤ n) : Due n s :=
  fun j x at_j => lt_of_lt_of_le (due j x at_j) le

theorem Due.of_views {n : Nat} (due : Due n s)
    (views : s'.connections.map exchangeOf = s.connections.map exchangeOf)
    (rst : s'.rstConnection = s.rstConnection)
    : Due n s' := by
  intro j x at_j
  rw [resets, rst]
  exact due j x (views ▸ at_j)

theorem due_length (s : Server) : Due (s.connections.length + 1) s := by
  intro j x at_j
  obtain ⟨lt, -⟩ := List.getElem?_eq_some_iff.mp at_j
  rw [List.length_map] at lt
  rw [resets]
  split <;> omega

theorem Due.awaited (due : Due 0 s) : awaited s = [] := by
  rw [awaited_views, List.filterMap_eq_nil_iff]
  intro x mem
  obtain ⟨j, at_j⟩ := List.mem_iff_getElem?.mp mem
  cases x with
  | none => rfl
  | some x => exact absurd (due j x at_j) (Nat.not_lt_zero _)

/-- The calls that are awaited have a send code, which makes their connections able to send. -/
theorem Matched.able (matched : Matched s) {k : Connection} {x : Exchange} (mem : k ∈ s.connections)
    (exchange : exchangeOf k = some x)
    : k.ableToSend p := by
  have member : x ∈ awaited s := List.mem_filterMap.mpr ⟨k, mem, exchange⟩
  have member := matched.mem_iff.mp (List.mem_append_right _ member)
  have nonzero : x.2.sendCode ≠ 0 := by
    obtain ⟨call, -, eq⟩ := List.mem_filterMap.mp member
    cases call with
    | packetIn h info payload code =>
        dsimp only at eq
        split_ifs at eq with zero
        cases eq
        exact zero
    | packetOut h info => cases eq
  obtain ⟨a, protocol⟩ := k
  cases protocol with
  | http c => cases exchange
  | gpip c =>
      cases exchange
      simpa [Connection.ableToSend, GpIpConnection.info] using nonzero

/-- A call of `smews_send` brings every connection above IP nearer: the connections before the one that
is chosen are not able to send, those behind it move to the front.
-/
theorem Due.send {n : Nat} (due : Due (n + 1) s) (matched : Matched s)
    (send : smewsSend p s = some s')
    : Due n s' := by
  intro j x at_j
  have behind {i : Nat} {before : List Connection} {k : Connection} (rst : s.rstConnection.port = 0)
      (chosen : s.connections.findIdx? (·.ableToSend p) = some i)
      (ring : (rotate i s).connections = before ++ [k])
      (at_j : (before.map exchangeOf)[j]? = some (some x))
      : j + resets s' < n := by
    obtain ⟨lt, -, earlier⟩ := List.findIdx?_eq_some_iff_getElem.mp chosen
    have last := rotate_last (List.getElem?_eq_getElem lt)
    rw [ring] at last
    obtain ⟨rfl, -⟩ := List.append_inj' last rfl
    rw [List.getElem?_map, Option.map_eq_some_iff] at at_j
    obtain ⟨k', at_j, exchange⟩ := at_j
    rw [resets, smewsSend_rst send rst, if_pos rst]
    by_cases front : j < (s.connections.drop (i + 1)).length
    · rw [List.getElem?_append_left front, List.getElem?_drop] at at_j
      have near := due (i + 1 + j) x (by rw [List.getElem?_map, at_j, Option.map_some, exchange])
      omega
    · -- these were not able to send
      rw [List.getElem?_append_right (Nat.le_of_not_lt front)] at at_j
      rw [List.getElem?_take] at at_j
      split_ifs at at_j with passed
      obtain ⟨lt', eq⟩ := List.getElem?_eq_some_iff.mp at_j
      have able : k'.ableToSend p := matched.able (eq ▸ List.getElem_mem lt') exchange
      rw [← eq] at able
      exact absurd able (earlier _ passed)
  cases smewsSend_sends send with
  | nothing _ idle same =>
      subst same
      obtain ⟨k, mem, exchange⟩ : ∃ k ∈ s'.connections, exchangeOf k = some x := by
        rw [List.getElem?_map, Option.map_eq_some_iff] at at_j
        obtain ⟨k, at_j, exchange⟩ := at_j
        exact ⟨k, List.mem_of_getElem? at_j, exchange⟩
      have unable := List.findIdx?_eq_none_iff.mp idle k mem
      exact absurd (matched.able (p := p) mem exchange) (by simp [unable])
  | reset rst same =>
      subst same
      have near := due j x at_j
      rw [resets, if_neg rst] at near
      rw [resets, if_pos (show (sendRst s).rstConnection.port = 0 from rfl)]
      omega
  | gpip i before a c rst chosen ring answered => exact behind rst chosen ring (answered.ring ▸ at_j)
  | http i before a c rst chosen _ ring serves =>
      refine behind rst chosen ring ?_
      rcases serves_views ring serves with views | views
      · rwa [views] at at_j
      · rw [views, List.getElem?_append] at at_j
        split at at_j
        · exact at_j
        · rw [List.getElem?_singleton] at at_j
          split at at_j <;> cases at_j

/-- While nothing arrives, enough calls of `smews_send` answer every packet, by induction on the run. -/
theorem awaited_end {n : Nat} {events : List Event} (run : Run (Step p) s events s')
    (quiet : ∀ event ∈ events, ¬ event.isArrival ∧ ¬ event.isRequest) (matched : Matched s)
    (due : Due n s) (enough : n ≤ events.countP Event.isSend)
    : awaited s' = [] ∧ accepted s'.packetCalls = accepted s.packetCalls := by
  induction run generalizing n with
  | nil s =>
      rw [List.countP_nil, Nat.le_zero] at enough
      subst enough
      exact ⟨due.awaited, rfl⟩
  | @cons s mid s' event events first _ ih =>
      obtain ⟨noArrival, noRequest⟩ := quiet event List.mem_cons_self
      have exchanges := step_exchanges first noRequest
      have rest {n : Nat} (due : Due n mid) (enough : n ≤ events.countP Event.isSend)
          (calls : accepted mid.packetCalls = accepted s.packetCalls)
          : awaited s' = [] ∧ accepted s'.packetCalls = accepted s.packetCalls :=
        calls ▸ ih (fun event mem => quiet event (List.mem_cons_of_mem _ mem))
          (exchanges.matched matched) due enough
      cases event with
      | receive _ => exact absurd rfl noArrival
      | receiveGpIp _ _ _ => exact absurd rfl noArrival
      | packetOut _ _ => exact absurd rfl noRequest
      | send =>
          rw [List.countP_cons_of_pos rfl] at enough
          refine rest (n := n - 1) ((due.mono (by omega)).send matched first) (by omega) ?_
          rcases exchanges.2 with ⟨h, info, content, calls, -⟩ | ⟨calls, -⟩
          · rw [calls, accepted_append, accepted_packetOut, List.append_nil]
          · rw [calls]
      | retransmit =>
          cases first
          exact rest (due.of_views (mapHttp_views _ _) rfl)
            (by rwa [List.countP_cons_of_neg (by decide)] at enough) rfl
      | push h =>
          cases first
          have unheard := serverPush_unheard (p := p) h s
          refine rest (due.of_views ?_ ?_) (by rwa [List.countP_cons_of_neg (by simp [Event.isSend])] at enough)
            (by rw [unheard.packetCalls])
          · unfold serverPush
            split
            · exact mapHttp_views _ _
            · rfl
          · unfold serverPush
            split <;> rfl

end Ends

--------------------------------------------------
-- Runs
--------------------------------------------------

/-- Every step of a run without requests exchanges packets, by induction on the run. -/
theorem run_exchanges {s s' : Server} {events : List Event} (run : Run (Step p) s events s')
    (noRequests : ∀ event ∈ events, ¬ event.isRequest)
    : Run (ExchangeStep p) s events s' := by
  induction run with
  | nil s => exact .nil s
  | cons step _ ih =>
      exact .cons (step_exchanges step (noRequests _ List.mem_cons_self))
        (ih fun event mem => noRequests event (List.mem_cons_of_mem _ mem))

theorem Matched.run {s s' : Server} {events : List Event} (matched : Matched s)
    (run : Run (ExchangeStep p) s events s')
    : Matched s' :=
  run.invariant Matched (fun matched step => step.matched matched) matched

/-- A build whose only handler is one above IP: it takes the first byte of a packet as its code, and
answers with the code and the protocol.
-/
def codeHandler : Program :=
  let page := oneGenerator hello noArgs
  {
    page with
    resource := fun _ => .plain (.generalIp {
      protocol := 1
      dopacketin := fun _ _ _ payload => payload.headD 0
      dopacketout := fun _ _ info => [info.sendCode, info.protocol]
    })
    resource_ne_control := fun _ _ _ => HandlerData.noConfusion
  }

/-- Two packets that are answered, and one between them that is not. -/
def threePackets : List Event :=
  [.receiveGpIp 0xc0a80105 1 [7], .receiveGpIp 0xc0a80106 1 [0], .receiveGpIp 0xc0a80107 1 [9]]

end Smews.System
