import Smews.Apps.Udp
import Smews.System.PacketExchange

/-! Datagrams and their replies: the binding that answers is found again from the address of the
connection.
-/

namespace Smews.System

open Smews.Core Input Output Runs Apps

--------------------------------------------------
-- The system
--------------------------------------------------

/-- The server and the bindings of `udp.c`. -/
structure UdpServer where
  server : Server
  udp : Udp

/-- A step of the server, a call of `udp_request_send`, or one of `udp_listen`, where the memory of the
new binding holds some arguments.
-/
inductive UdpEvent
  | server (event : Event)
  | requestSend (dstIp : UInt32) (dstPort srcPort : UInt16)
  | listen (port : UInt16) (packetIn : Nat → UdpHeader → List UInt8 → UInt8 × UdpHeader)
    (packetOut : Nat → UdpHeader → List UdpWrite × UdpHeader) (memory : UdpArgs)

/-- The build with `udp.c` at an index of its resources. -/
def withUdp (p : Program) (index : Nat) (place : Addr → Nat) (st : Udp) : Program :=
  {
    p with
    resource := Function.update p.resource index (.plain (.generalIp (udp place p.outputBufferSize st)))
    resource_ne_control := by
      intro n length flags
      by_cases own : n = index
      · rw [own, Function.update_self]
        exact HandlerData.noConfusion
      · rw [Function.update_of_ne own]
        exact p.resource_ne_control n length flags
  }

/-- The pointer that `request_packet_out_call` returns. -/
def requestedConnection (p : Program) (protocol : UInt8) (s : Server) : Option Addr :=
  (p.gpIpGetOutputHandler protocol).bind fun _ => (s.heap.memAlloc p.sizeofConnection).1

section Steps

variable (p : Program) (index : Nat) (place : Addr → Nat) (sizeofUdpCallback : UInt16)

/-- `udp_request_send`. -/
def udpRequestSend (dstIp : UInt32) (dstPort srcPort : UInt16) (u : UdpServer) : UdpServer :=
  let p := withUdp p index place u.udp
  match u.udp.getCallback srcPort with
  | none => u
  | some binding =>
      match u.udp.bindings[binding]? with
      | none => u
      | some n =>
          let connection := requestedConnection p 17 u.server
          let server := requestPacketOutCall p 17 dstIp u.server
          let header := { n.args.header with srcPort, dstPort }
          let udp := u.udp.setArgs binding { header, connectionInfo := (connection.map place).getD 0 }
          match connection with
          | none => { server, udp }
          | some a => { server, udp := udp.addCall (.requestSend a binding srcPort dstPort) }

/-- `udp_listen`. A new binding is written to before its allocation is checked. -/
def udpListen (n : UdpCallback) (u : UdpServer) : Option UdpServer :=
  match u.udp.getCallback n.srcPort with
  | some _ => some u
  | none =>
      match u.server.heap.memAlloc sizeofUdpCallback with
      | (none, _) => none
      | (some _, heap) =>
          some {
            server := { u.server with heap }
            udp := { u.udp with bindings := u.udp.bindings ++ [n] }
          }

/-- The state after an event, unless the behaviour of the source is undefined. -/
def udpNext (u : UdpServer) : UdpEvent → Option UdpServer
  | .server event => do
      let server ← next (withUdp p index place u.udp) u.server event
      let made := server.packetCalls.drop u.server.packetCalls.length
      some { server, udp := made.foldl (udpAfter place p.outputBufferSize (.resource index)) u.udp }
  | .requestSend dstIp dstPort srcPort => some (udpRequestSend p index place dstIp dstPort srcPort u)
  | .listen port packetIn packetOut memory =>
      udpListen sizeofUdpCallback { srcPort := port, packetIn, packetOut, args := memory } u

end Steps

--------------------------------------------------
-- The property
--------------------------------------------------

/-- A connection that is left to be served, the binding that created it and the ports of that time. -/
structure Created where
  connection : Addr
  binding : Nat
  srcPort : UInt16
  dstPort : UInt16

def created : UdpCall → Option Created
  | .packetIn connection binding srcPort dstPort returned =>
      if returned = 0 then none else some { connection, binding, srcPort, dstPort }
  | .requestSend connection binding srcPort dstPort => some { connection, binding, srcPort, dstPort }
  | .packetOut _ _ => none

/-- Whenever `udp_packet_out` ran for a connection, it called `packet_out` of the binding that created
this connection, with the ports of that time.
-/
def RightBinding (calls : List UdpCall) : Prop :=
  ∀ a called, .packetOut a called ∈ calls →
    ∃ call ∈ calls, ∃ c ∈ created call, c.connection = a ∧ called = some (c.binding, c.srcPort, c.dstPort)

/-- No connection that a binding created waits to be served. -/
def NoneWaits (h : HandlerRef) (u : UdpServer) (binding : Nat) : Prop :=
  ∀ x ∈ waiting h u.server, ∀ call ∈ u.udp.calls, ∀ c ∈ created call,
    c.connection = x.2.connection → c.binding ≠ binding

/-- No binding before the one that created a connection still stores the address of it. -/
def NoneStale (place : Addr → Nat) (st : Udp) (a : Addr) : Prop :=
  ∀ call ∈ st.calls, ∀ c ∈ created call, c.connection = a →
    ∀ earlier < c.binding, ∀ n ∈ st.bindings[earlier]?, n.args.connectionInfo ≠ place a

/-- The condition on a step: a binding gets no datagram and no request while a connection that it
created waits, and no earlier binding stores the address of the connection that is served.
-/
def OneForEach (p : Program) (index : Nat) (place : Addr → Nat) (u : UdpServer) : UdpEvent → Prop
  | .server (.receiveGpIp _ protocol packet) =>
      protocol = 17 → (u.server.heap.memAlloc p.sizeofConnection).1.isSome →
        ∀ binding ∈ u.udp.getCallback (ui16 (packet.getD 2 0) (packet.getD 3 0)),
          NoneWaits (.resource index) u binding
  | .server .send =>
      u.server.rstConnection.port = 0 →
        ∀ i ∈ u.server.connections.findIdx? (·.ableToSend (withUdp p index place u.udp)),
          ∀ k ∈ u.server.connections[i]?, ∀ x ∈ exchangeOf k, x.1 = .resource index →
            NoneStale place u.udp k.addr
  | .server (.packetOut protocol _) => protocol ≠ 17
  | .requestSend _ _ srcPort =>
      ∀ binding ∈ u.udp.getCallback srcPort, NoneWaits (.resource index) u binding
  | _ => True

def OneForEachStep (p : Program) (index : Nat) (place : Addr → Nat) (sizeofUdpCallback : UInt16)
    (u : UdpServer) (event : UdpEvent) (u' : UdpServer)
    : Prop :=
  udpNext p index place sizeofUdpCallback u event = some u' ∧ OneForEach p index place u event

--------------------------------------------------
-- The invariant
--------------------------------------------------

/-- A binding created a connection, and stores its address and the ports of that time. -/
def Owns (place : Addr → Nat) (st : Udp) (a : Addr) (binding : Nat) : Prop :=
  ∃ n, st.bindings[binding]? = some n ∧ n.args.connectionInfo = place a
    ∧ ∃ call ∈ st.calls,
      created call = some ⟨a, binding, n.args.header.srcPort, n.args.header.dstPort⟩

/-- The connections that wait to be served belong to bindings, each to another one. -/
def Tracked (place : Addr → Nat) (ring : List Exchange) (st : Udp) : Prop :=
  ∃ owned : List (Exchange × Nat), (owned.map Prod.fst).Perm ring ∧ (owned.map Prod.snd).Nodup
    ∧ ∀ x ∈ owned, Owns place st x.1.2.connection x.2

structure UdpInv (index : Nat) (place : Addr → Nat) (u : UdpServer) : Prop where
  tracked : Tracked place (waiting (.resource index) u.server) u.udp
  right : RightBinding u.udp.calls

section Tracked

variable {place : Addr → Nat} {st : Udp} {ring : List Exchange} {a : Addr} {binding : Nat}

/-- A binding that is not stored to, while more happens. -/
theorem Owns.of_same {st' : Udp} (owns : Owns place st a binding)
    (same : st'.bindings[binding]? = st.bindings[binding]?) (more : st.calls ⊆ st'.calls)
    : Owns place st' a binding := by
  obtain ⟨n, here, stored, call, mem, made⟩ := owns
  exact ⟨n, same.trans here, stored, call, more mem, made⟩

theorem Tracked.perm {ring' : List Exchange} (tracked : Tracked place ring st)
    (perm : ring'.Perm ring)
    : Tracked place ring' st := by
  obtain ⟨owned, same, nodup, owns⟩ := tracked
  exact ⟨owned, same.trans perm.symm, nodup, owns⟩

/-- A binding that owns no connection that waits is stored to. -/
theorem Tracked.setArgs {args : UdpArgs} {st' : Udp} (tracked : Tracked place ring st)
    (free : ∀ x ∈ ring, ¬ Owns place st x.2.connection binding)
    (bindings : st'.bindings = (st.setArgs binding args).bindings) (more : st.calls ⊆ st'.calls)
    : Tracked place ring st' := by
  obtain ⟨owned, same, nodup, owns⟩ := tracked
  refine ⟨owned, same, nodup, fun x mem => (owns x mem).of_same ?_ more⟩
  rw [bindings]
  refine Udp.setArgs_other args fun eq => ?_
  exact free x.1 (same.mem_iff.mp (List.mem_map_of_mem mem)) (eq ▸ owns x mem)

/-- A connection is added, for a binding that owned none. -/
theorem Tracked.add {x : Exchange} {args : UdpArgs} {st' : Udp} (tracked : Tracked place ring st)
    (free : ∀ x ∈ ring, ¬ Owns place st x.2.connection binding)
    (bindings : st'.bindings = (st.setArgs binding args).bindings) (more : st.calls ⊆ st'.calls)
    (owns : Owns place st' x.2.connection binding)
    : Tracked place (ring ++ [x]) st' := by
  obtain ⟨owned, same, nodup, each⟩ := tracked
  have others (y : Exchange × Nat) (mem : y ∈ owned) : y.2 ≠ binding := by
    rintro rfl
    exact free y.1 (same.mem_iff.mp (List.mem_map_of_mem mem)) (each y mem)
  refine ⟨owned ++ [(x, binding)], ?_, ?_, ?_⟩
  · rw [List.map_append]
    exact same.append_right _
  · rw [List.map_append, List.map_singleton, List.nodup_append]
    refine ⟨nodup, List.nodup_singleton _, ?_⟩
    rintro b mem b' mem' rfl
    obtain ⟨y, member, rfl⟩ := List.mem_map.mp mem
    exact others y member (List.mem_singleton.mp mem')
  · intro y mem
    rcases List.mem_append.mp mem with mem | mem
    · refine (each y mem).of_same ?_ more
      rw [bindings]
      exact Udp.setArgs_other args (others y mem)
    · rw [List.mem_singleton.mp mem]
      exact owns

/-- A connection is served, and the binding that owns it is stored to. -/
theorem Tracked.remove {x : Exchange} (tracked : Tracked place (x :: ring) st)
    : ∃ binding, Owns place st x.2.connection binding
      ∧ ∀ (args : UdpArgs) (st' : Udp), st'.bindings = (st.setArgs binding args).bindings →
        st.calls ⊆ st'.calls → Tracked place ring st' := by
  obtain ⟨owned, same, nodup, each⟩ := tracked
  obtain ⟨⟨y, binding⟩, mem, rfl⟩ := List.mem_map.mp (same.mem_iff.mpr List.mem_cons_self)
  have split := List.perm_cons_erase mem
  have others := (split.map Prod.snd).nodup_iff.mp nodup
  rw [List.map_cons, List.nodup_cons] at others
  refine ⟨binding, each _ mem, fun args st' bindings more => ?_⟩
  refine ⟨owned.erase (y, binding), ?_, others.2, fun x later => ?_⟩
  · exact ((split.map Prod.fst).symm.trans same).cons_inv
  · refine (each x (List.mem_of_mem_erase later)).of_same ?_ more
    rw [bindings]
    exact Udp.setArgs_other args fun eq => others.1 (List.mem_map.mpr ⟨x, later, eq⟩)

theorem RightBinding.add {calls : List UdpCall} {call : UdpCall} (right : RightBinding calls)
    (other : ∀ a called, call ≠ .packetOut a called)
    : RightBinding (calls ++ [call]) := by
  intro a called mem
  rcases List.mem_append.mp mem with mem | mem
  · obtain ⟨call, mem, made⟩ := right a called mem
    exact ⟨call, List.mem_append_left _ mem, made⟩
  · exact absurd (List.mem_singleton.mp mem).symm (other a called)

theorem RightBinding.served {calls : List UdpCall} {srcPort dstPort : UInt16}
    (right : RightBinding calls)
    (made : ∃ call ∈ calls, created call = some ⟨a, binding, srcPort, dstPort⟩)
    : RightBinding (calls ++ [.packetOut a (some (binding, srcPort, dstPort))]) := by
  intro b called mem
  rcases List.mem_append.mp mem with mem | mem
  · obtain ⟨call, mem, made⟩ := right b called mem
    exact ⟨call, List.mem_append_left _ mem, made⟩
  · cases List.mem_singleton.mp mem
    obtain ⟨call, mem, made⟩ := made
    exact ⟨call, List.mem_append_left _ mem, _, made, rfl, rfl⟩

theorem NoneWaits.free {h : HandlerRef} {u : UdpServer} (none : NoneWaits h u binding)
    : ∀ x ∈ waiting h u.server, ¬ Owns place u.udp x.2.connection binding := by
  rintro x mem ⟨n, -, -, call, member, made⟩
  exact none x mem call member _ made rfl rfl

/-- A datagram for a binding that owns no connection that waits. -/
theorem Tracked.packetIn (tracked : Tracked place ring st) (right : RightBinding st.calls)
    (info : ConnectionInfo) (packet : List UInt8)
    (free : ∀ binding ∈ st.getCallback (ui16 (packet.getD 2 0) (packet.getD 3 0)),
      ∀ x ∈ ring, ¬ Owns place st x.2.connection binding)
    : RightBinding (udpPacketIn place info packet st).2.calls
      ∧ Tracked place ring (udpPacketIn place info packet st).2
      ∧ ((udpPacketIn place info packet st).1 ≠ 0 → ∀ x : Exchange, x.2.connection = info.connection →
        Tracked place (ring ++ [x]) (udpPacketIn place info packet st).2) := by
  rcases udpPacketIn_cases place info packet st
    with ⟨zero, same⟩ | ⟨binding, n, header, found, here, stored⟩
  · rw [same, zero]
    exact ⟨right, tracked, fun nonzero => absurd rfl nonzero⟩
  · have free := free binding found
    generalize (udpPacketIn place info packet st).1 = code at stored ⊢
    generalize (udpPacketIn place info packet st).2 = st' at stored ⊢
    have more : st.calls ⊆ st'.calls := by
      rw [stored]
      exact List.subset_append_left _ _
    have bindings : st'.bindings
        = (st.setArgs binding { header, connectionInfo := place info.connection }).bindings := by
      rw [stored]
      rfl
    refine ⟨?_, tracked.setArgs free bindings more, fun nonzero x same => ?_⟩
    · rw [stored]
      exact right.add fun _ _ => UdpCall.noConfusion
    · refine tracked.add free bindings more ?_
      refine ⟨_, bindings ▸ Udp.setArgs_self _ here, by rw [same],
        .packetIn info.connection binding header.srcPort header.dstPort code, ?_, ?_⟩
      · rw [stored]
        exact List.mem_append_right _ List.mem_cons_self
      · rw [created, if_neg nonzero, same]

end Tracked

--------------------------------------------------
-- Steps
--------------------------------------------------

section Steps

variable {p : Program} {index : Nat} {place : Addr → Nat} {size : UInt16} {u : UdpServer} {s : Server}

theorem withUdp_handler (st : Udp)
    : ((withUdp p index place st).handler (.resource index)).data
      = .generalIp (udp place p.outputBufferSize st) := by
  simp [withUdp, Program.handler, OutputHandler.plain]

/-- The bindings after the calls that a step of the server made. -/
def afterCalls (p : Program) (index : Nat) (place : Addr → Nat) (u : UdpServer) (s : Server)
    : UdpServer :=
  {
    server := s
    udp := (s.packetCalls.drop u.server.packetCalls.length).foldl
      (udpAfter place p.outputBufferSize (.resource index)) u.udp
  }

theorem afterCalls_none (calls : s.packetCalls = u.server.packetCalls)
    : (afterCalls p index place u s).udp = u.udp := by
  rw [afterCalls, calls, List.drop_length]
  rfl

theorem afterCalls_one (p : Program) (index : Nat) (place : Addr → Nat) {call : PacketCall}
    (calls : s.packetCalls = u.server.packetCalls ++ [call])
    : (afterCalls p index place u s).udp
      = udpAfter place p.outputBufferSize (.resource index) u.udp call := by
  rw [afterCalls, calls, List.drop_left']
  · rfl
  · rfl

theorem UdpInv.of_udp {st : Udp} (udp : (afterCalls p index place u s).udp = st)
    (tracked : Tracked place (waiting (.resource index) s) st) (right : RightBinding st.calls)
    : UdpInv index place (afterCalls p index place u s) := by
  subst udp
  exact ⟨tracked, right⟩

theorem UdpInv.of_none (inv : UdpInv index place u) (calls : s.packetCalls = u.server.packetCalls)
    (ring : (waiting (.resource index) s).Perm (waiting (.resource index) u.server))
    : UdpInv index place (afterCalls p index place u s) :=
  .of_udp (afterCalls_none calls) (inv.tracked.perm ring) inv.right

/-- A datagram arrives. -/
theorem UdpInv.receive {srcAddr : UInt32} {protocol : UInt8} {packet : List UInt8}
    (inv : UdpInv index place u)
    (one : OneForEach p index place u (.server (.receiveGpIp srcAddr protocol packet)))
    (step : smewsReceiveGpIp (withUdp p index place u.udp) srcAddr protocol packet u.server = some s)
    : UdpInv index place (afterCalls p index place u s) := by
  -- a call of the application for a connection that is allocated
  have called {h : HandlerRef} {g : GpIpHandlers} {a : Addr} {heap : Heap} (own : h = .resource index)
      (handler : (withUdp p index place u.udp).gpIpGetOutputHandler protocol = some h)
      (data : ((withUdp p index place u.udp).handler h).data = .generalIp g)
      (alloc : u.server.heap.memAlloc p.sizeofConnection = (some a, heap))
      : udp place p.outputBufferSize u.udp = g
        ∧ ∀ binding ∈ u.udp.getCallback (ui16 (packet.getD 2 0) (packet.getD 3 0)),
          NoneWaits (.resource index) u binding := by
    subst own
    have eq : udp place p.outputBufferSize u.udp = g :=
      HandlerData.generalIp.inj ((withUdp_handler u.udp).symm.trans data)
    subst eq
    exact ⟨rfl, one (handler_protocol handler data).symm (by rw [alloc]; rfl)⟩
  cases smewsReceiveGpIp_receives step with
  | unknown _ same =>
      subst same
      exact inv.of_none rfl (.refl _)
  | exhausted heap _ same =>
      subst same
      exact inv.of_none rfl (.refl _)
  | dropped h g a heap handler data alloc code same =>
      have ring : waiting (.resource index) s = waiting (.resource index) u.server := by
        rw [same]
        rfl
      generalize gpIpInfo (withUdp p index place u.udp) h srcAddr protocol packet a = info at same
      have calls : s.packetCalls = u.server.packetCalls ++ [.packetIn h info packet 0] := by rw [same]
      have udp := afterCalls_one p index place calls
      by_cases own : h = .resource index
      · obtain ⟨-, none⟩ := called own handler data alloc
        obtain ⟨right, tracked, -⟩ := inv.tracked.packetIn inv.right info packet
          fun binding found => (none binding found).free
        rw [udpAfter, if_pos own] at udp
        exact .of_udp udp (ring ▸ tracked) right
      · rw [udpAfter, if_neg own] at udp
        exact .of_udp udp (ring ▸ inv.tracked) inv.right
  | accepted h g a heap code handler data alloc returned nonzero same =>
      have awaits : awaited s = awaited u.server
          ++ [(h, { gpIpInfo (withUdp p index place u.udp) h srcAddr protocol packet a with
              sendCode := code })] := by
        rw [same]
        exact List.filterMap_append ..
      generalize gpIpInfo (withUdp p index place u.udp) h srcAddr protocol packet a = info
        at same awaits returned
      have calls : s.packetCalls = u.server.packetCalls ++ [.packetIn h info packet code] := by
        rw [same]
      have udp := afterCalls_one p index place calls
      by_cases own : h = .resource index
      · obtain ⟨rfl, none⟩ := called own handler data alloc
        obtain ⟨right, -, tracked⟩ := inv.tracked.packetIn inv.right info packet
          fun binding found => (none binding found).free
        rw [udpAfter, if_pos own] at udp
        have accepts : (udpPacketIn place info packet u.udp).1 ≠ 0 := fun zero =>
          nonzero (returned.symm.trans zero)
        refine .of_udp udp ((tracked accepts (h, { info with sendCode := code }) rfl).perm (.of_eq ?_)) right
        rw [waiting, awaits, List.filter_append, List.filter_cons_of_pos (by simpa using own)]
        rfl
      · rw [udpAfter, if_neg own] at udp
        refine .of_udp udp (inv.tracked.perm (.of_eq ?_)) inv.right
        rw [waiting, awaits, List.filter_append, List.filter_cons_of_neg (by simpa using own)]
        exact List.append_nil _

/-- A connection is served. -/
theorem UdpInv.send (inv : UdpInv index place u) (one : OneForEach p index place u (.server .send))
    (send : smewsSend (withUdp p index place u.udp) u.server = some s)
    : UdpInv index place (afterCalls p index place u s) := by
  rcases smewsSend_answers send with ⟨i, before, a, c, rst, chosen, ring, answered⟩ | same
  swap
  · exact inv.of_none same.1 (waiting_perm same.2)
  have left := (answered_perm ring answered).filter (·.1 = .resource index)
  have udp := afterCalls_one p index place answered.calls
  by_cases own : c.outputHandler = .resource index
  · rw [List.filter_cons_of_pos (by simpa using own)] at left
    rw [udpAfter, if_pos own] at udp
    obtain ⟨binding, ⟨n, here, stored, made⟩, rest⟩ := (inv.tracked.perm left.symm).remove
    obtain ⟨call, mem, made⟩ := made
    have fresh : NoneStale place u.udp a :=
      one rst i chosen _ (chosen_last chosen ring) _ rfl own
    have found : u.udp.getCallbackFromConnection (place (c.info a).connection) = some binding :=
      Udp.getCallbackFromConnection_eq here stored (fresh call mem _ made rfl)
    obtain ⟨args, out⟩ := udpPacketOut_called p.outputBufferSize found here
    rw [out] at udp
    refine .of_udp udp (rest _ _ rfl (List.subset_append_left _ _)) ?_
    exact inv.right.served ⟨call, mem, made⟩
  · rw [List.filter_cons_of_neg (by simpa using own)] at left
    rw [udpAfter, if_neg own] at udp
    exact .of_udp udp (inv.tracked.perm left.symm) inv.right

/-- A request adds the connection that it returns. -/
theorem requestPacketOutCall_requested (p : Program) (protocol : UInt8) (address : UInt32) (s : Server)
    : match requestedConnection p protocol s with
      | none => awaited (requestPacketOutCall p protocol address s) = awaited s
      | some a => ∃ h info, info.connection = a
          ∧ awaited (requestPacketOutCall p protocol address s) = awaited s ++ [(h, info)] := by
  unfold requestPacketOutCall requestedConnection Server.addConnection
  cases p.gpIpGetOutputHandler protocol with
  | none => rfl
  | some h =>
      dsimp only [Option.bind_some]
      rcases s.heap.memAlloc p.sizeofConnection with ⟨a | a, heap⟩
      · rfl
      · exact ⟨h, _, rfl, List.filterMap_append ..⟩

/-- An application asks for a connection. -/
theorem UdpInv.requestSend {dstIp : UInt32} {dstPort srcPort : UInt16} (inv : UdpInv index place u)
    (one : OneForEach p index place u (.requestSend dstIp dstPort srcPort))
    : UdpInv index place (udpRequestSend p index place dstIp dstPort srcPort u) := by
  unfold udpRequestSend
  cases found : u.udp.getCallback srcPort with
  | none => exact inv
  | some binding =>
      dsimp only
      have free : ∀ x ∈ waiting (.resource index) u.server, ¬ Owns place u.udp x.2.connection binding :=
        (one binding found).free
      have asked := requestPacketOutCall_requested (withUdp p index place u.udp) 17 dstIp u.server
      cases here : u.udp.bindings[binding]? with
      | none => exact inv
      | some n =>
          let header := { n.args.header with srcPort, dstPort }
          dsimp only
          cases connection : requestedConnection (withUdp p index place u.udp) 17 u.server with
          | none =>
              rw [connection] at asked
              have kept : Tracked place (waiting (.resource index) u.server)
                  (u.udp.setArgs binding { header, connectionInfo := 0 }) :=
                inv.tracked.setArgs free rfl fun _ => id
              exact ⟨kept.perm (.of_eq (congrArg (List.filter _) asked)), inv.right⟩
          | some a =>
              rw [connection] at asked
              obtain ⟨h, info, same, awaits⟩ := asked
              refine ⟨?_, inv.right.add fun _ _ => UdpCall.noConfusion⟩
              let stored := u.udp.setArgs binding { header, connectionInfo := place a }
              change Tracked place (waiting _ (requestPacketOutCall _ 17 dstIp u.server))
                (stored.addCall (.requestSend a binding srcPort dstPort))
              have more : u.udp.calls ⊆ (stored.addCall (.requestSend a binding srcPort dstPort)).calls :=
                List.subset_append_left _ _
              by_cases own : h = .resource index
              · have owns : Owns place (stored.addCall (.requestSend a binding srcPort dstPort))
                    info.connection binding := by
                  refine ⟨_, Udp.setArgs_self _ here, by rw [same], .requestSend a binding srcPort dstPort,
                    List.mem_append_right _ List.mem_cons_self, ?_⟩
                  rw [same]
                  rfl
                have added : Tracked place (waiting _ u.server ++ [(h, info)])
                    (stored.addCall (.requestSend a binding srcPort dstPort)) :=
                  inv.tracked.add free rfl more owns
                refine added.perm (.of_eq ?_)
                rw [waiting, awaits, List.filter_append, List.filter_cons_of_pos (by simpa using own)]
                rfl
              · have kept : Tracked place (waiting _ u.server)
                    (stored.addCall (.requestSend a binding srcPort dstPort)) :=
                  inv.tracked.setArgs free rfl more
                refine kept.perm (.of_eq ?_)
                rw [waiting, awaits, List.filter_append, List.filter_cons_of_neg (by simpa using own)]
                exact List.append_nil _

/-- An application binds a port. -/
theorem UdpInv.listen {n : UdpCallback} {u' : UdpServer} (inv : UdpInv index place u)
    (listen : udpListen size n u = some u')
    : UdpInv index place u' := by
  unfold udpListen at listen
  cases found : u.udp.getCallback n.srcPort with
  | some _ =>
      rw [found] at listen
      cases listen
      exact inv
  | none =>
      rw [found] at listen
      dsimp only at listen
      split at listen
      · cases listen
      · cases listen
        refine ⟨?_, inv.right⟩
        obtain ⟨owned, same, nodup, each⟩ := inv.tracked
        refine ⟨owned, same, nodup, fun x mem => ?_⟩
        obtain ⟨m, here, owns⟩ := each x mem
        refine ⟨m, ?_, owns⟩
        obtain ⟨lt, -⟩ := List.getElem?_eq_some_iff.mp here
        rw [List.getElem?_append_left lt]
        exact here

/-- A step that meets the condition keeps the invariant. -/
theorem UdpInv.step {event : UdpEvent} {u' : UdpServer} (inv : UdpInv index place u)
    (step : OneForEachStep p index place size u event u')
    : UdpInv index place u' := by
  obtain ⟨step, one⟩ := step
  cases event with
  | requestSend dstIp dstPort srcPort =>
      cases step
      exact inv.requestSend one
  | listen port packetIn packetOut memory => exact inv.listen step
  | server event =>
      unfold udpNext at step
      rw [Option.bind_eq_bind, Option.bind_eq_some_iff] at step
      obtain ⟨s, step, same⟩ := step
      cases same
      have none (same : NoExchange u.server s) : UdpInv index place (afterCalls p index place u s) :=
        inv.of_none same.1 (waiting_perm same.2)
      cases event with
      | receiveGpIp srcAddr protocol packet => exact inv.receive one step
      | send => exact inv.send one step
      | packetOut protocol address =>
          cases step
          refine inv.of_none (requestPacketOutCall_unheard protocol address u.server).packetCalls
            (.of_eq (requestPacketOutCall_waiting fun handler => ?_))
          exact one (handler_protocol handler (withUdp_handler u.udp)).symm
      | receive seg => exact none (step_exchanges step (by simp [Event.isRequest])).2
      | retransmit => exact none (step_exchanges step (by simp [Event.isRequest])).2
      | push handler => exact none (step_exchanges step (by simp [Event.isRequest])).2

end Steps

--------------------------------------------------
-- Runs
--------------------------------------------------

/-- In every run after `smews_init` that meets the condition, `udp_packet_out` calls the binding that
created the connection, with the ports of that time.
-/
theorem udp_replies {p : Program} {index : Nat} {place : Addr → Nat} {size : UInt16}
    {u u' : UdpServer} {events : List UdpEvent} (start : u.server.connections = [])
    (noCalls : u.udp.calls = []) (run : Run (OneForEachStep p index place size) u events u')
    : RightBinding u'.udp.calls := by
  have first : UdpInv index place u := by
    refine ⟨⟨[], ?_, List.nodup_nil, fun x mem => absurd mem List.not_mem_nil⟩, ?_⟩
    · rw [waiting, awaited, start]
      exact .refl _
    · rw [noCalls]
      exact fun _ _ mem => absurd mem List.not_mem_nil
  exact (run.invariant (UdpInv index place) (fun inv step => inv.step step) first).right

instance (h : HandlerRef) (u : UdpServer) (binding : Nat) : Decidable (NoneWaits h u binding) :=
  inferInstanceAs (Decidable (∀ x ∈ waiting h u.server, ∀ call ∈ u.udp.calls, ∀ c ∈ created call,
    c.connection = x.2.connection → c.binding ≠ binding))

instance (place : Addr → Nat) (st : Udp) (a : Addr) : Decidable (NoneStale place st a) :=
  inferInstanceAs (Decidable (∀ call ∈ st.calls, ∀ c ∈ created call, c.connection = a →
    ∀ earlier < c.binding, ∀ n ∈ st.bindings[earlier]?, n.args.connectionInfo ≠ place a))

instance (p : Program) (index : Nat) (place : Addr → Nat) (u : UdpServer)
    : (event : UdpEvent) → Decidable (OneForEach p index place u event)
  | .server (.receiveGpIp _ protocol packet) =>
      inferInstanceAs (Decidable (protocol = 17 →
        (u.server.heap.memAlloc p.sizeofConnection).1.isSome →
          ∀ binding ∈ u.udp.getCallback (ui16 (packet.getD 2 0) (packet.getD 3 0)),
            NoneWaits (.resource index) u binding))
  | .server .send =>
      inferInstanceAs (Decidable (u.server.rstConnection.port = 0 →
        ∀ i ∈ u.server.connections.findIdx? (·.ableToSend (withUdp p index place u.udp)),
          ∀ k ∈ u.server.connections[i]?, ∀ x ∈ exchangeOf k, x.1 = .resource index →
            NoneStale place u.udp k.addr))
  | .server (.packetOut protocol _) => inferInstanceAs (Decidable (protocol ≠ 17))
  | .requestSend _ _ srcPort =>
      inferInstanceAs (Decidable (∀ binding ∈ u.udp.getCallback srcPort,
        NoneWaits (.resource index) u binding))
  | .server (.receive _) | .server .retransmit | .server (.push _) | .listen _ _ _ _ => .isTrue trivial

/-- A binding of `udp_test.c`: the ports are switched for the answer. -/
def testBinding : UdpEvent :=
  .listen 2000
    (fun _ header _ => (1, { header with srcPort := header.dstPort, dstPort := header.srcPort }))
    (fun _ header => ([.outa (ascii "Received!\r\n")], header))
    { header := { srcPort := 0, dstPort := 0, payloadSize := 0, chk := 0 }, connectionInfo := 0 }

/-- A datagram of two bytes to port 2000. -/
def datagram (srcAddr : UInt32) (srcPort : UInt8) : UdpEvent :=
  .server (.receiveGpIp srcAddr 17 [0x13, srcPort, 0x07, 0xd0, 0, 10, 0, 0, 1, 2])

def bootUdp : UdpServer := { server := bootServer, udp := { bindings := [], calls := [] } }

/-- Two datagrams are answered one after the other. -/
theorem udp_replies_two
    : ∃ u, Run (OneForEachStep (oneGenerator hello noArgs) 0 (· + 1) 64) bootUdp
          [testBinding, datagram 0xc0a80105 1, .server .send, datagram 0xc0a80106 2, .server .send] u
        ∧ RightBinding u.udp.calls ∧ u.udp.calls.length = 4 := by
  have checked : ((runChecked (udpNext (oneGenerator hello noArgs) 0 (· + 1) 64)
      (OneForEach (oneGenerator hello noArgs) 0 (· + 1))
      [testBinding, datagram 0xc0a80105 1, .server .send, datagram 0xc0a80106 2, .server .send]
      bootUdp).map fun u => u.udp.calls.length) = some 4 := by
    decide +kernel
  rw [Option.map_eq_some_iff] at checked
  obtain ⟨u, run, length⟩ := checked
  exact ⟨u, Run.of_checked run, udp_replies rfl rfl (Run.of_checked run), length⟩

/-- Two datagrams for one binding arrive before the first is answered: no callback is called for the
connection of the first one.
-/
theorem udp_replies_lost
    : ∃ u, Run (fun u event u' => udpNext (oneGenerator hello noArgs) 0 (· + 1) 64 u event = some u') bootUdp
          [testBinding, datagram 0xc0a80105 1, datagram 0xc0a80106 2, .server .send] u
        ∧ ¬ RightBinding u.udp.calls := by
  have checked : ((runChecked (udpNext (oneGenerator hello noArgs) 0 (· + 1) 64) (fun _ _ => True)
      [testBinding, datagram 0xc0a80105 1, datagram 0xc0a80106 2, .server .send] bootUdp).map
        fun u => decide (.packetOut 1 none ∈ u.udp.calls)) = some true := by
    decide +kernel
  rw [Option.map_eq_some_iff] at checked
  obtain ⟨u, run, called⟩ := checked
  refine ⟨u, (Run.of_checked run).mono And.left, fun right => ?_⟩
  obtain ⟨_, _, _, _, _, none⟩ := right 1 none (of_decide_eq_true called)
  cases none

end Smews.System
