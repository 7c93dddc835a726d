import Mathlib.Data.List.TakeWhile
import Smews.Core.ConnectionRing
import Smews.Input.Receive
import Smews.Output.Served

/-! The ring of connections over whole runs: it stays one ring as long as `tmp_connection` is written back with the
links that its connection has at that time. What the server model does with its list of connections is what the
functions on links do.
-/

namespace Smews.System

open Smews.Core Input Output Runs CircularList ConnectionRing

--------------------------------------------------
-- Steps
--------------------------------------------------

/-- What happens to the ring. `assign` stands for the stores into other members of a connection, and `process` for
those into `tmp_connection`.
-/
inductive RingEvent
  | add (source : Cell) (block : Option Addr)
  | free (a : Addr)
  | rotate (active : Addr)
  | assign (a : Addr) (protocol : Protocol)
  | beginReceive (port : UInt16) (ipAddr : UInt32) (listen : Protocol)
  | process (protocol : Protocol)
  | endReceive (block : Option Addr)

/-- One step. -/
def ringNext (s : ConnectionRing) : RingEvent → Option ConnectionRing
  | .add source block => (s.addConnection source block).map Prod.snd
  | .free a => s.freeConnection a
  | .rotate active => s.rotate active
  | .assign a protocol => s.store (some a) ({ · with protocol })
  | .beginReceive port ipAddr listen => s.beginReceive port ipAddr listen
  | .process protocol => some { s with tmpConnection := { s.tmpConnection with protocol } }
  | .endReceive block => s.endReceive block

/-- The event names connections of the ring, and a block that is not one of them. -/
def Proper (s : ConnectionRing) : RingEvent → Prop
  | .add _ block | .endReceive block => ∀ a ∈ block, a ∉ s.live
  | .free a | .rotate a | .assign a _ => a ∈ s.live
  | .beginReceive _ _ _ | .process _ => True

/-- What is written back, or freed, is a connection of the ring; it is written back with the links that it has. -/
def LinksKept (s : ConnectionRing) : RingEvent → Prop
  | .endReceive _ => ∀ a ∈ s.connection, a ∈ s.live ∧ (tcpState s.tmpConnection.protocol = some .listen
      ∨ (s.tmpConnection.next = s.next a ∧ s.tmpConnection.prev = s.prev a))
  | _ => True

/-- The connections form one ring. -/
def OneRing (s : ConnectionRing) : Prop := ∃ l, Intact s l

section Steps

variable {s s' : ConnectionRing} {l : List Addr} {event : RingEvent}

/-- `add_connection` with any block that is not a connection. -/
theorem addConnection_oneRing (intact : Intact s l) (source : Cell) {block : Option Addr}
    (fresh : ∀ a ∈ block, a ∉ s.live)
    : ∃ s', s.addConnection source block = some (block, s') ∧ OneRing s' := by
  cases block with
  | none => exact ⟨s, rfl, l, intact⟩
  | some a =>
      obtain ⟨s', added, intact', -⟩ := addConnection_intact intact source (fresh a rfl)
      exact ⟨s', added, l ++ [a], intact'⟩

theorem freeConnection_oneRing {a : Addr} (intact : Intact s l) (mem : a ∈ s.live)
    : ∃ s', s.freeConnection a = some s' ∧ OneRing s' := by
  obtain ⟨front, back, split⟩ := List.append_of_mem ((intact.members a).mpr mem)
  obtain ⟨s', freed, intact', -⟩ := freeConnection_intact intact split
  exact ⟨s', freed, back ++ front, intact'⟩

/-- The end of `smews_receive` for a connection that was inserted. -/
theorem endReceive_inserted (intact : Intact s l) {block : Option Addr} (fresh : ∀ a ∈ block, a ∉ s.live)
    (new : s.connection = none ∧ tcpState s.tmpConnection.protocol = some .synRcvd)
    : ∃ s', s.endReceive block = some s' ∧ OneRing s' := by
  unfold endReceive
  rw [if_pos new]
  cases block with
  | none =>
      refine ⟨s, ?_, l, intact⟩
      simp [addConnection, new.1]
  | some a =>
      obtain ⟨s', added, intact', live, -, tmp, -⟩ := addConnection_intact intact s.tmpConnection (fresh a rfl)
      have own : a ∈ s'.live := live ▸ List.mem_cons_self
      simp only [added, tmp, new.2, read_eq own, store, own, reduceCtorEq, if_true, if_false, Option.some.injEq,
        Option.bind_eq_bind, Option.bind_some]
      refine ⟨_, rfl, l ++ [a], ?_⟩
      apply put_intact
      · exact ⟨intact'.ring, intact'.members, intact'.first⟩
      · rfl
      · rfl

/-- The end of `smews_receive` in general. -/
theorem endReceive_oneRing_iff (intact : Intact s l) {block : Option Addr} (fresh : ∀ a ∈ block, a ∉ s.live)
    : (∃ s', s.endReceive block = some s' ∧ OneRing s') ↔ LinksKept s (.endReceive block) := by
  by_cases new : s.connection = none ∧ tcpState s.tmpConnection.protocol = some .synRcvd
  · refine iff_of_true (endReceive_inserted intact fresh new) fun a mem => ?_
    rw [new.1] at mem
    cases mem
  · have start : s.endReceive block = s.connection.elim (some s) fun a =>
        if tcpState s.tmpConnection.protocol = some .listen then s.freeConnection a
        else s.store (some a) fun _ => s.tmpConnection := by
      rw [endReceive, if_neg new, Option.bind_eq_bind, Option.bind_some]
      dsimp only
      cases s.connection with
      | none => rfl
      | some a => rfl
    rw [start, LinksKept]
    cases connection : s.connection with
    | none => exact iff_of_true ⟨s, rfl, l, intact⟩ fun a mem => by cases mem
    | some a =>
        simp only [Option.elim_some, Option.mem_def, Option.some.injEq, forall_eq']
        by_cases own : a ∈ s.live
        · by_cases freed : tcpState s.tmpConnection.protocol = some .listen
          · rw [if_pos freed]
            exact iff_of_true (freeConnection_oneRing intact own) ⟨own, .inl freed⟩
          · rw [if_neg freed, store_eq own]
            constructor
            · rintro ⟨s', stored, l', intact'⟩
              rw [← Option.some.inj stored] at intact'
              exact ⟨own, .inr (put_keeps intact own intact')⟩
            · rintro ⟨-, freed' | ⟨next_kept, prev_kept⟩⟩
              · exact absurd freed' freed
              · exact ⟨_, rfl, l, put_intact intact next_kept prev_kept⟩
        · refine iff_of_false ?_ fun kept => own kept.1
          rintro ⟨s', ended, -⟩
          split at ended
          · simp [freeConnection, ConnectionRing.read, own] at ended
          · simp [store, own] at ended

/-- The beginning of `smews_receive` always succeeds. -/
theorem beginReceive_oneRing (intact : Intact s l) (port : UInt16) (ipAddr : UInt32) (listen : Protocol)
    : ∃ s', s.beginReceive port ipAddr listen = some s' ∧ OneRing s' := by
  rw [beginReceive, lookup_finds intact, Option.bind_eq_bind, Option.bind_some]
  cases found : l.find? fun a => isPeerOf port ipAddr (s.cells a).protocol with
  | none => exact ⟨_, if_pos rfl, l, intact.ring, intact.members, intact.first⟩
  | some a =>
      have own := (intact.members a).mp (List.mem_of_find?_eq_some found)
      rw [if_neg (by simp), read_eq own]
      exact ⟨_, rfl, l, intact.ring, intact.members, intact.first⟩

/-- A step keeps the ring exactly when the links that are written back are current. -/
theorem ringNext_oneRing_iff (ring : OneRing s) (proper : Proper s event)
    : (∃ s', ringNext s event = some s' ∧ OneRing s') ↔ LinksKept s event := by
  obtain ⟨l, intact⟩ := ring
  cases event with
  | add source block =>
      obtain ⟨s', added, ring'⟩ := addConnection_oneRing intact source proper
      exact iff_of_true ⟨s', by rw [ringNext, added, Option.map_some], ring'⟩ trivial
  | free a => exact iff_of_true (freeConnection_oneRing intact proper) trivial
  | rotate a =>
      obtain ⟨front, back, split⟩ := List.append_of_mem ((intact.members a).mpr proper)
      obtain ⟨rotated, intact'⟩ := rotate_intact intact split
      exact iff_of_true ⟨_, rotated, _, intact'⟩ trivial
  | assign a protocol => exact iff_of_true ⟨_, store_eq proper, l, put_intact intact rfl rfl⟩ trivial
  | beginReceive port ipAddr listen => exact iff_of_true (beginReceive_oneRing intact port ipAddr listen) trivial
  | process protocol => exact iff_of_true ⟨_, rfl, l, intact.ring, intact.members, intact.first⟩ trivial
  | endReceive block => exact endReceive_oneRing_iff intact proper

end Steps

--------------------------------------------------
-- Runs
--------------------------------------------------

/-- Before any connection. -/
structure NoConnection (s : ConnectionRing) : Prop where
  live : s.live = []
  first : s.allConnections = none

theorem NoConnection.oneRing {s : ConnectionRing} (none_ : NoConnection s) : OneRing s :=
  ⟨[], ring_nil, fun a => by rw [none_.live], none_.first⟩

/-- A proper step that writes current links back. -/
def RingStep (s : ConnectionRing) (event : RingEvent) (s' : ConnectionRing) : Prop :=
  Proper s event ∧ LinksKept s event ∧ ringNext s event = some s'

theorem RingStep.oneRing {s s' : ConnectionRing} {event : RingEvent} (step : RingStep s event s') (ring : OneRing s)
    : OneRing s' := by
  obtain ⟨proper, kept, next⟩ := step
  obtain ⟨_, next', ring'⟩ := (ringNext_oneRing_iff ring proper).mpr kept
  cases next.symm.trans next'
  exact ring'

/-- What comes up to the first member with a property, by induction on the list. -/
theorem upTo_prefix {α : Type} (p : α → Bool) (l : List α) : l.takeWhile (!p ·) ++ (l.find? p).toList <+: l := by
  induction l with
  | nil => exact List.prefix_rfl
  | cons a l ih =>
      cases here : p a
      · rw [List.takeWhile_cons, List.find?_cons, here]
        exact List.prefix_cons_inj a |>.mpr ih
      · rw [List.takeWhile_cons, List.find?_cons, here]
        exact ⟨l, rfl⟩

/-- In every run whose steps write current links back, the connections form one ring, the loops visit each connection
once and end, and every next step keeps the ring exactly when it writes current links back.
-/
theorem ring_integrity {start s : ConnectionRing} {events : List RingEvent} (empty : NoConnection start)
    (run : Run RingStep start events s)
    : ∃ l, Intact s l
      ∧ (s.allConnections = none ↔ s.live = []) ∧ (∀ a ∈ s.allConnections, a ∈ s.live)
      ∧ (∀ a ∈ s.live, ∀ b ∈ s.live, s.next a = some b ↔ s.prev b = some a)
      ∧ (∀ code, Advances s code → ∃ visited found, s.forEachConn code = some (visited, found)
        ∧ visited <+: l ∧ visited.Nodup ∧ (found = none → ∀ a ∈ s.live, a ∈ visited))
      ∧ (∀ port ipAddr, Advances s (lookupCode port ipAddr)
        ∧ s.lookup port ipAddr = some (l.find? fun a => isPeerOf port ipAddr (s.cells a).protocol))
      ∧ ∀ event, Proper s event → ((∃ s', ringNext s event = some s' ∧ OneRing s') ↔ LinksKept s event) := by
  have ring : OneRing s := run.invariant OneRing (fun ring step => step.oneRing ring) empty.oneRing
  obtain ⟨l, intact⟩ := ring
  refine ⟨l, intact, intact.none_iff, fun a first => intact.first_mem first, fun a mem_a b mem_b => ?_,
    fun code advances => ?_, fun port ipAddr => ⟨lookupCode_advances port ipAddr, lookup_finds intact port ipAddr⟩,
    fun event proper => ringNext_oneRing_iff ⟨l, intact⟩ proper⟩
  · exact intact.ring.next_iff ((intact.members a).mpr mem_a) ((intact.members b).mpr mem_b)
  · have front := upTo_prefix (s.breaksAt code) l
    refine ⟨_, _, forEachConn_visits intact advances, front, intact.ring.distinct.sublist front.sublist, ?_⟩
    intro none_ a mem
    have all : l.takeWhile (!s.breaksAt code ·) = l := by
      refine List.takeWhile_eq_self_iff.mpr fun b mem => ?_
      simpa using List.find?_eq_none.mp none_ b mem
    rw [none_, Option.toList_none, List.append_nil, all]
    exact (intact.members a).mpr mem

--------------------------------------------------
-- Two clients
--------------------------------------------------

instance (s : ConnectionRing) (event : RingEvent) : Decidable (Proper s event) :=
  match event with
  | .add _ block | .endReceive block => inferInstanceAs (Decidable (∀ a ∈ block, a ∉ s.live))
  | .free a | .rotate a | .assign a _ => inferInstanceAs (Decidable (a ∈ s.live))
  | .beginReceive _ _ _ | .process _ => inferInstanceAs (Decidable True)

instance (s : ConnectionRing) (event : RingEvent) : Decidable (LinksKept s event) :=
  match event with
  | .endReceive _ => inferInstanceAs (Decidable (∀ a ∈ s.connection, a ∈ s.live ∧ (_ ∨ _)))
  | .add _ _ | .free _ | .rotate _ | .assign _ _ | .beginReceive _ _ _ | .process _ =>
      inferInstanceAs (Decidable True)

/-- The connection of a client with a port. -/
def clientOf (port : UInt16) (tcpState : TcpState) : Protocol :=
  .http {
    ipAddr := 0xc0a80105, outputHandler := none, tcpMss := 1000, tcpState, nextOutseqno := 0x42b7a491
    finalOutseqno := 0, currentInseqno := 0, port, cwnd := 0, inflight := 0, generatorService := none
    transmissionTime := 0, cometPassive := false, cometSendAck := false, cometStreaming := false
    request := {
      parsingState := .out, blob := [], args := .null, currArg := 0, argRefIndex := 0, postUrlDetected := false
      postData := none, readyToSend := true
    }
  }

/-- A connection for a UDP packet. -/
def udpOut : Protocol := .gpip ⟨0xffffffff, .resource 0, 0, 17, 1⟩

def noConnection : ConnectionRing :=
  ⟨[], fun _ => ⟨udpOut, none, none⟩, none, ⟨udpOut, none, none⟩, none⟩

/-- A SYN of a client, whose connection gets a block. -/
def opens (port : UInt16) (a : Addr) : List RingEvent :=
  [.beginReceive port 0xc0a80105 (clientOf port .listen), .process (clientOf port .synRcvd), .endReceive (some a)]

/-- A segment of a client that is connected. -/
def establishes (port : UInt16) : List RingEvent :=
  [.beginReceive port 0xc0a80105 (clientOf port .listen), .process (clientOf port .established), .endReceive none]

/-- The ring with two clients and a connection above IP between them, after one of the clients was served. -/
theorem ring_integrity_two
    : ∃ s l, Run RingStep noConnection
        (opens 4000 0 ++ .add ⟨udpOut, none, none⟩ (some 1) :: opens 4001 2 ++ .rotate 0 :: establishes 4001) s
      ∧ Intact s l ∧ s.lookup 4001 0xc0a80105 = some (some 2) ∧ s.live.length = 3 := by
  have checked : ((runChecked ringNext (fun s event => Proper s event ∧ LinksKept s event)
      (opens 4000 0 ++ .add ⟨udpOut, none, none⟩ (some 1) :: opens 4001 2 ++ .rotate 0 :: establishes 4001)
      noConnection).map fun s => (s.lookup 4001 0xc0a80105, s.live.length)) = some (some (some 2), 3) := by
    decide +kernel
  simp only [Option.map_eq_some_iff, Prod.mk.injEq] at checked
  obtain ⟨s, run, found, length⟩ := checked
  have run : Run RingStep noConnection _ s := (Run.of_checked run).mono fun step => ⟨step.2.1, step.2.2, step.1⟩
  obtain ⟨l, intact, -⟩ := ring_integrity ⟨rfl, rfl⟩ run
  exact ⟨s, l, run, intact, found, length⟩

/-- A packet is requested while a segment of the only client is handled: its connection is written back with links
to itself, and the new one is in no ring.
-/
theorem ring_not_intact_nested
    : ∃ s, Run (fun s event s' => Proper s event ∧ ringNext s event = some s') noConnection
        (opens 4000 0 ++ [.beginReceive 4000 0xc0a80105 (clientOf 4000 .listen), .add ⟨udpOut, none, none⟩ (some 1),
          .process (clientOf 4000 .established), .endReceive none]) s
      ∧ ¬ OneRing s := by
  have checked : ((runChecked ringNext Proper
      (opens 4000 0 ++ [.beginReceive 4000 0xc0a80105 (clientOf 4000 .listen), .add ⟨udpOut, none, none⟩ (some 1),
        .process (clientOf 4000 .established), .endReceive none]) noConnection).map
      fun s => (s.live, s.next 1, s.prev 0)) = some ([1, 0], some 0, some 0) := by
    decide +kernel
  simp only [Option.map_eq_some_iff, Prod.mk.injEq] at checked
  obtain ⟨s, run, live, forth, back⟩ := checked
  refine ⟨s, (Run.of_checked run).mono And.symm, ?_⟩
  rintro ⟨l, intact⟩
  have mem (a : Addr) (mem : a ∈ [1, 0]) : a ∈ l := (intact.members a).mpr (live ▸ mem)
  have inverse := (intact.ring.next_iff (mem 1 (by decide)) (mem 0 (by decide))).mp forth
  cases back.symm.trans inverse

--------------------------------------------------
-- The list of the server model
--------------------------------------------------

/-- The connections of a ring. -/
def contents (s : ConnectionRing) (l : List Addr) : List Connection := l.map fun a => ⟨a, (s.cells a).protocol⟩

/-- The list of the server model gives the ring. -/
def Represents (s : ConnectionRing) (t : Server) : Prop := ∃ l, Intact s l ∧ t.connections = contents s l

section Represents

variable {p : Program} {s : ConnectionRing} {t t' : Server} {i : Nat} {k : Connection}

/-- The ring around the connection at a position. -/
theorem Represents.split (represents : Represents s t) (at_i : t.connections[i]? = some k)
    : ∃ front back, Intact s (front ++ k.addr :: back) ∧ k.protocol = (s.cells k.addr).protocol
      ∧ t.connections.take i = contents s front ∧ t.connections.drop (i + 1) = contents s back := by
  obtain ⟨l, intact, ring⟩ := represents
  rw [ring, contents, List.getElem?_map, Option.map_eq_some_iff] at at_i
  obtain ⟨a, at_i, rfl⟩ := at_i
  refine ⟨l.take i, l.drop (i + 1), ?_, rfl, by rw [ring, contents, ← List.map_take, contents],
    by rw [ring, contents, ← List.map_drop, contents]⟩
  obtain ⟨lt, own⟩ := List.getElem?_eq_some_iff.mp at_i
  rwa [← own, List.cons_getElem_drop_succ, List.take_append_drop]

theorem contents_append (l l' : List Addr) : contents s (l ++ l') = contents s l ++ contents s l' := List.map_append

theorem contents_congr {s' : ConnectionRing} {l : List Addr}
    (kept : ∀ a ∈ l, (s'.cells a).protocol = (s.cells a).protocol)
    : contents s' l = contents s l :=
  List.map_congr_left fun a mem => by rw [kept a mem]

/-- `add_connection`. -/
theorem addConnection_represents (represents : Represents s t) (source : Cell) (fresh : t.heap.next ∉ s.live)
    : ∃ s', s.addConnection source (t.addConnection p source.protocol).1
        = some ((t.addConnection p source.protocol).1, s')
      ∧ Represents s' (t.addConnection p source.protocol).2 := by
  obtain ⟨l, intact, ring⟩ := represents
  unfold Server.addConnection Heap.memAlloc
  by_cases full : t.heap.exhausted t.heap.next
  · rw [if_pos full]
    exact ⟨s, rfl, l, intact, ring⟩
  · rw [if_neg full]
    obtain ⟨s', added, intact', -, protocol, -⟩ := addConnection_intact intact source fresh
    refine ⟨s', added, l ++ [t.heap.next], intact', ?_⟩
    have old : contents s' l = contents s l := contents_congr fun a mem => by
      rw [protocol a, if_neg]
      rintro rfl
      exact fresh ((intact.members _).mp mem)
    dsimp only
    rw [contents_append, old, ring]
    simp [contents, protocol]

/-- `free_connection`. -/
theorem freeConnection_represents (represents : Represents s t) (at_i : t.connections[i]? = some k)
    (freed : t.freeConnection p i = some t')
    : ∃ s', s.freeConnection k.addr = some s' ∧ Represents s' t' := by
  obtain ⟨front, back, intact, -, before, behind⟩ := represents.split at_i
  obtain ⟨s', step, intact', protocol, -⟩ := freeConnection_intact intact rfl
  refine ⟨s', step, back ++ front, intact', ?_⟩
  rw [freeConnection_connections freed, before, behind, contents_congr fun a _ => protocol a, contents_append]

/-- The rotation in `smews_send`. -/
theorem rotate_represents (represents : Represents s t) (at_i : t.connections[i]? = some k)
    : ∃ s', s.rotate k.addr = some s' ∧ Represents s' (Output.rotate i t) := by
  obtain ⟨front, back, intact, own, before, behind⟩ := represents.split at_i
  obtain ⟨step, intact'⟩ := rotate_intact intact rfl
  refine ⟨_, step, _, intact', ?_⟩
  rw [Output.rotate, List.take_add_one, at_i, before, behind]
  obtain ⟨a, protocol⟩ := k
  dsimp only at own
  simp [contents, own]

/-- The write-back of `tmp_connection`. -/
theorem setHttp_represents (represents : Represents s t) (at_i : t.connections[i]? = some k) (c : HttpConnection)
    : ∃ s', s.store (some k.addr) (fun _ => ⟨.http c, s.next k.addr, s.prev k.addr⟩) = some s'
      ∧ Represents s' (t.setHttp i c) := by
  obtain ⟨front, back, intact, -, before, behind⟩ := represents.split at_i
  have own : k.addr ∈ s.live := (intact.members _).mp (List.mem_append_right _ List.mem_cons_self)
  have others := (List.nodup_cons.mp (List.nodup_middle.mp intact.ring.distinct)).1
  refine ⟨_, store_eq own, front ++ k.addr :: back, put_intact intact rfl rfl, ?_⟩
  obtain ⟨lt, at_i⟩ := List.getElem?_eq_some_iff.mp at_i
  have kept (l : List Addr) (inside : ∀ a ∈ l, a ∈ front ++ back)
      : contents (s.put k.addr fun _ => ⟨.http c, s.next k.addr, s.prev k.addr⟩) l = contents s l :=
    contents_congr fun a mem => by
      rw [put_cells, Function.update_of_ne]
      rintro rfl
      exact others (inside _ mem)
  rw [List.append_cons, contents_append, contents_append, kept front fun a => List.mem_append_left back,
    kept back fun a => List.mem_append_right front]
  dsimp only [Server.setHttp]
  rw [List.modify_eq_take_cons_drop lt, at_i, before, behind, List.append_assoc]
  simp [contents]

/-- The search in `smews_receive`. -/
theorem findConnection_represents (represents : Represents s t) (seg : TcpSegment)
    : s.lookup seg.srcPort seg.srcAddr
      = some ((findConnection p t seg).1.bind fun i => t.connections[i]?.map Connection.addr) := by
  obtain ⟨l, intact, ring⟩ := represents
  rw [lookup_finds intact, findConnection]
  cases found : t.connections.findIdx? (isPeer seg) with
  | none =>
      rw [List.findIdx?_eq_none_iff, ring] at found
      refine congrArg some (List.find?_eq_none.mpr fun a mem => ?_)
      have other := found _ (List.mem_map_of_mem mem)
      rw [Bool.not_eq_true]
      exact other
  | some i =>
      obtain ⟨lt, here, front⟩ := List.findIdx?_eq_some_iff_getElem.mp found
      have lt' : i < l.length := by rwa [ring, contents, List.length_map] at lt
      have entry (j : Nat) (inside : j < l.length) (inside' : j < t.connections.length)
          : t.connections[j] = ⟨l[j], (s.cells l[j]).protocol⟩ := by
        simp [ring, contents]
      have first : l.find? (fun a => isPeerOf seg.srcPort seg.srcAddr (s.cells a).protocol) = some l[i] := by
        refine List.find?_eq_some_iff_getElem.mpr ⟨?_, i, lt', rfl, fun j before => ?_⟩
        · rw [entry i lt' lt] at here
          exact here
        · have other := front j before
          rw [entry j (by omega) (by omega)] at other
          rw [Bool.not_eq_true] at other
          rw [Bool.not_eq_true']
          exact other
      have at_i : t.connections[i]? = some ⟨l[i], (s.cells l[i]).protocol⟩ := by
        rw [List.getElem?_eq_getElem lt, entry i lt' lt]
      rw [entry i lt' lt] at here
      rw [first]
      dsimp only
      cases protocol : (s.cells l[i]).protocol with
      | gpip g => simp [isPeer, protocol] at here
      | http c =>
          rw [protocol] at at_i
          simp only [at_i]
          rw [Option.bind_some, at_i, Option.map_some]

end Represents

end Smews.System
