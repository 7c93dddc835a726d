import Smews.Library.RoundRobin
import Smews.System.Allocations

/-! The turns of the connections: between two selections of one connection by `smews_send`, every other connection that
is able to send all the time is selected, unless a connection behind it is freed.
-/

namespace Smews.System

open Smews.Core Input Output Runs RoundRobin

variable {p : Program}

--------------------------------------------------
-- Selections
--------------------------------------------------

/-- The names of the connections, from `all_connections` on. -/
def names (s : Server) : List Addr := s.connections.map Connection.addr

/-- A connection of the ring is able to send. -/
def Able (p : Program) (a : Addr) (s : Server) : Prop := ∃ k ∈ s.connections, k.addr = a ∧ k.ableToSend p

/-- `smews_send` would select a connection. -/
def Selects (p : Program) (a : Addr) (s : Server) : Prop :=
  s.rstConnection.port = 0
    ∧ (s.connections.findIdx? (·.ableToSend p)).bind (fun i => (names s)[i]?) = some a

/-- When a connection is freed, none of those between `all_connections` and it is able to send. -/
def TurnsKept (p : Program) (s s' : Server) : Prop :=
  ∀ i < s.connections.length, ∀ k ∈ s.connections[i]?, k.addr ∉ names s' →
    ∀ waiting ∈ s.connections.take i, waiting.ableToSend p = false

/-- A step of an interval in which a connection is able to send. -/
def AbleStep (p : Program) (a : Addr) (s : Server) (event : Event) (s' : Server) : Prop :=
  Step p s event s' ∧ Able p a s ∧ TurnsKept p s s'

--------------------------------------------------
-- Names
--------------------------------------------------

/-- The connections of the ring have different names, given before. -/
structure Named (s : Server) : Prop where
  distinct : (names s).Nodup
  given : ∀ a ∈ names s, a < s.heap.next

/-- The names of a ring after a step. -/
inductive NamesStep (p : Program) (s : Server) (event : Event) (s' : Server) : Prop
  | same (ring : names s' = names s)
  | added (a : Addr) (fresh : s.heap.next ≤ a) (given : a < s'.heap.next) (ring : names s' = names s ++ [a])
  | freed (i : Nat) (inside : i < s.connections.length) (ring : names s' = (names s).drop (i + 1) ++ (names s).take i)
  | served (i : Nat) (send : event = .send) (rst : s.rstConnection.port = 0)
    (chosen : s.connections.findIdx? (·.ableToSend p) = some i)
    (ring : names s' = (names s).drop (i + 1) ++ (names s).take (i + 1)
      ∨ names s' = (names s).drop (i + 1) ++ (names s).take i)

section NamesStep

variable {s s' : Server}

/-- A new connection gets a new name. -/
theorem addConnection_names (s : Server) (protocol : Protocol)
    : ((s.addConnection p protocol).1 = none ∧ names (s.addConnection p protocol).2 = names s)
      ∨ (∃ a, (s.addConnection p protocol).1 = some a ∧ s.heap.next ≤ a
        ∧ a < (s.addConnection p protocol).2.heap.next
        ∧ (s.addConnection p protocol).2.connections = s.connections ++ [⟨a, protocol⟩]) := by
  unfold Server.addConnection Heap.memAlloc
  by_cases full : s.heap.exhausted s.heap.next
  · rw [if_pos full]
    exact .inl ⟨rfl, rfl⟩
  · rw [if_neg full]
    exact .inr ⟨s.heap.next, rfl, Nat.le_refl _, Nat.lt_succ_self _, rfl⟩

theorem names_setHttp (i : Nat) (c : HttpConnection) : names (s.setHttp i c) = names s := by
  refine List.ext_getElem? fun j => ?_
  simp only [names, Server.setHttp, List.getElem?_map, List.getElem?_modify]
  by_cases same : i = j
  · subst same
    cases s.connections[i]? <;> simp
  · simp [same]

theorem rotate_names (i : Nat) (s : Server)
    : names (rotate i s) = (names s).drop (i + 1) ++ (names s).take (i + 1) := by
  rw [names, rotate, List.map_append, List.map_drop, List.map_take]
  rfl

/-- The connection that is served stays, or is freed. -/
theorem Serves.names {before : List Connection} {a : Addr} {c : HttpConnection} (serves : Serves p s before a c s')
    (ring : s.connections = before ++ [⟨a, .http c⟩])
    : names s' = System.names s ∨ System.names s' = before.map Connection.addr := by
  have kept (d : HttpConnection) : (before ++ [(⟨a, .http d⟩ : Connection)]).map Connection.addr = System.names s := by
    rw [System.names, ring, List.map_append, List.map_append]
    rfl
  cases serves with
  | ack _ _ ring' =>
      rcases ring' with ⟨-, ring'⟩ | ⟨-, ring'⟩
      · exact .inr (by rw [System.names, ring'])
      · exact .inl (by rw [System.names, ring', kept])
  | control _ _ _ _ _ _ ring' =>
      rcases ring' with ⟨-, ring'⟩ | ⟨-, ring'⟩
      · exact .inr (by rw [System.names, ring'])
      · exact .inl (by rw [System.names, ring', kept])
  | file _ _ _ _ _ _ _ _ _ ring' => exact .inl (by rw [System.names, ring', kept])
  | generator _ _ _ _ _ _ _ served =>
      refine .inl ?_
      rw [System.names, System.names]
      have all := served.ring
      generalize s.connections = before, s'.connections = after at all
      induction all with
      | nil => rfl
      | cons first _ ih =>
          rw [List.map_cons, List.map_cons, ih]
          rcases first with rfl | ⟨_, _, _, rfl, _⟩ <;> rfl

/-- The chosen connection and those in front of it go to the end. -/
theorem smewsSend_served {i : Nat} (send : smewsSend p s = some s') (rst : s.rstConnection.port = 0)
    (chosen : s.connections.findIdx? (·.ableToSend p) = some i)
    : names s' = (names s).drop (i + 1) ++ (names s).take (i + 1)
      ∨ names s' = (names s).drop (i + 1) ++ (names s).take i := by
  have freed {before : List Connection} {k : Connection} (ring : (rotate i s).connections = before ++ [k])
      : before.map Connection.addr = (names s).drop (i + 1) ++ (names s).take i := by
    obtain ⟨lt, -, -⟩ := List.findIdx?_eq_some_iff_getElem.mp chosen
    rw [rotate_last (List.getElem?_eq_getElem lt)] at ring
    rw [← (List.append_inj' ring rfl).1, List.map_append, List.map_drop, List.map_take]
    rfl
  cases smewsSend_sends send with
  | nothing _ idle _ =>
      rw [idle] at chosen
      cases chosen
  | reset waits _ => exact absurd rst waits
  | gpip j before a g _ found ring answered =>
      obtain rfl := Option.some.inj (chosen.symm.trans found)
      exact .inr (by rw [names, answered.ring, freed ring])
  | http j before a c _ found able ring serves =>
      obtain rfl := Option.some.inj (chosen.symm.trans found)
      rcases Serves.names serves ring with same | before_
      · exact .inl (by rw [same, rotate_names])
      · exact .inr (by rw [before_, freed ring])

theorem smewsSend_names (send : smewsSend p s = some s') : NamesStep p s .send s' := by
  cases smewsSend_sends send with
  | nothing _ _ same => exact .same (by rw [same])
  | reset _ same => exact .same (by rw [same]; rfl)
  | gpip i _ _ _ rst chosen _ _ => exact .served i rfl rst chosen (smewsSend_served send rst chosen)
  | http i _ _ _ rst chosen _ _ _ => exact .served i rfl rst chosen (smewsSend_served send rst chosen)

/-- A segment adds a connection with a new name. -/
theorem smewsReceive_fresh {seg : TcpSegment} {a : Addr} {c : HttpConnection} (step : smewsReceive p seg s = some s')
    (ring : s'.connections = s.connections ++ [⟨a, .http c⟩])
    : s.heap.next ≤ a ∧ a < s'.heap.next := by
  have longer := congrArg List.length ring
  rw [List.length_append, List.length_singleton] at longer
  unfold smewsReceive at step
  split at step
  swap
  · rw [← Option.some.inj step] at longer
    omega
  rw [Option.bind_eq_bind, Option.bind_eq_some_iff] at step
  obtain ⟨outcome, processed, rest⟩ := step
  cases outcome with
  | inr heap =>
      rw [← Option.some.inj rest] at longer
      dsimp only at longer
      omega
  | inl d =>
      have held := process_keeps (allocatorInv_next s.heap.next) (p := p) (Nat.le_refl _) seg _ _ processed
      dsimp only at rest
      split at rest
      swap
      · rw [← Option.some.inj rest] at longer
        dsimp only at longer
        omega
      unfold commit at rest
      rw [Option.bind_eq_bind, Option.bind_eq_some_iff] at rest
      obtain ⟨⟨c', t⟩, service, rest⟩ := rest
      have same := (commitService_spec service).1
      have next := commitService_keeps (allocatorInv_next s.heap.next) (p := p) (s := { s with heap := d.heap }) held
        seg.ackno d _ service
      dsimp only at rest same next
      split at rest
      · split at rest
        · rw [freeConnection_connections rest, same, List.length_append, List.length_drop, List.length_take] at longer
          omega
        · rw [← Option.some.inj rest, Server.setHttp, List.length_modify, same] at longer
          omega
      · split at rest
        · rcases addConnection_names (p := p) t (.http c') with ⟨none, kept⟩ | ⟨b, some_, fresh, given, added⟩
          · have length := congrArg List.length kept
            rw [names, names, List.length_map, List.length_map, same] at length
            split at rest <;> rename_i eq <;> rw [eq] at none length
            · rw [← Option.some.inj rest] at longer
              dsimp only at longer length
              omega
            · cases none
          · split at rest <;> rename_i eq <;> rw [eq] at some_ given added
            · cases some_
            · rw [← Option.some.inj rest] at ring ⊢
              dsimp only at added given
              rw [added, same] at ring
              cases List.append_cancel_left ring
              exact ⟨Nat.le_trans next fresh, given⟩
        · rw [← Option.some.inj rest] at longer
          dsimp only at longer
          rw [same] at longer
          omega

theorem mapHttp_names (f : HttpConnection → HttpConnection) (s : Server) : names (mapHttp f s) = names s := by
  rw [names, names, mapHttp, List.map_map]
  refine List.map_congr_left fun k _ => ?_
  obtain ⟨a, protocol⟩ := k
  cases protocol <;> rfl

theorem step_names {event : Event} (step : Step p s event s') : NamesStep p s event s' := by
  cases event with
  | send => exact smewsSend_names step
  | receive seg =>
      cases smewsReceive_receives step with
      | ignored ring => exact .same (by rw [names, ring, names])
      | stored i _ _ _ _ _ _ _ _ _ _ _ ring =>
          refine .same ?_
          rw [names, ring]
          exact names_setHttp i _
      | freed i a c at_i ring =>
          refine .freed i (List.getElem?_eq_some_iff.mp at_i).1 ?_
          rw [names, ring, List.map_append, List.map_drop, List.map_take]
          rfl
      | added a c _ _ _ ring =>
          obtain ⟨fresh, given⟩ := smewsReceive_fresh step ring
          refine .added a fresh given ?_
          rw [names, ring, List.map_append, names]
          rfl
  | receiveGpIp srcAddr protocol payload =>
      cases smewsReceiveGpIp_receives step with
      | unknown _ same | exhausted _ _ same | dropped _ _ _ _ _ _ _ _ same =>
          subst same
          exact .same rfl
      | accepted h g a heap code _ _ alloc _ _ same =>
          have fresh : s.heap.next ≤ a ∧ a < heap.next := by
            unfold Heap.memAlloc at alloc
            split at alloc
            · cases alloc
            · cases alloc
              exact ⟨Nat.le_refl _, Nat.lt_succ_self _⟩
          rw [same]
          refine .added a fresh.1 fresh.2 ?_
          rw [names, List.map_append, names]
          rfl
  | retransmit =>
      cases step
      exact .same (mapHttp_names _ _)
  | push handler =>
      cases step
      unfold serverPush
      split
      · exact .same (mapHttp_names _ _)
      · exact .same rfl
  | packetOut protocol address =>
      cases step
      unfold requestPacketOutCall
      split
      · exact .same rfl
      · rcases addConnection_names (p := p) s (.gpip _) with ⟨-, kept⟩ | ⟨a, -, fresh, given, added⟩
        · exact .same kept
        · refine .added a fresh given ?_
          rw [names, added, List.map_append, names]
          rfl

theorem Named.step {event : Event} (named : Named s) (step : Step p s event s') : Named s' := by
  obtain ⟨distinct, given⟩ := named
  have next := step_keeps (allocatorInv_next s.heap.next) step (Nat.le_refl _)
  have moved {i j : Nat} (le : j ≤ i + 1) (ring : names s' = (names s).drop (i + 1) ++ (names s).take j) : Named s' := by
    have sub : (names s').Subperm (names s) := by
      rw [ring]
      refine List.perm_append_comm.subperm.trans ?_
      conv_rhs => rw [← List.take_append_drop (i + 1) (names s)]
      exact ((List.take_sublist_take_left le).append_right _).subperm
    obtain ⟨l, perm, sublist⟩ := sub
    exact ⟨perm.nodup_iff.mp (distinct.sublist sublist), fun a mem =>
      Nat.lt_of_lt_of_le (given a (sublist.subset (perm.mem_iff.mpr mem))) next⟩
  cases step_names step with
  | same ring =>
      rw [← ring] at distinct given
      exact ⟨distinct, fun a mem => Nat.lt_of_lt_of_le (given a mem) next⟩
  | added a fresh given' ring =>
      refine ⟨?_, fun b mem => ?_⟩
      · rw [ring]
        refine List.nodup_append.mpr ⟨distinct, List.nodup_singleton a, fun b mem c own => ?_⟩
        rw [List.mem_singleton.mp own]
        exact Nat.ne_of_lt (Nat.lt_of_lt_of_le (given b mem) fresh)
      · rw [ring, List.mem_append, List.mem_singleton] at mem
        rcases mem with mem | rfl
        · exact Nat.lt_of_lt_of_le (given b mem) next
        · exact given'
  | freed i _ ring => exact moved (Nat.le_succ i) ring
  | served i _ _ _ ring =>
      rcases ring with ring | ring
      · exact moved (Nat.le_refl _) ring
      · exact moved (Nat.le_succ i) ring

end NamesStep

--------------------------------------------------
-- Turns
--------------------------------------------------

section Turns

variable {s s' : Server} {a b : Addr}

theorem Able.mem (able : Able p a s) : a ∈ names s := by
  obtain ⟨k, mem, rfl, -⟩ := able
  exact List.mem_map_of_mem mem

/-- A connection that is able to send is not among others that are not. -/
theorem Able.notMem_take {i : Nat} (able : Able p a s) (named : Named s)
    (front : ∀ k ∈ s.connections.take i, k.ableToSend p = false)
    : a ∉ (names s).take i := by
  rw [names, ← List.map_take, List.mem_map]
  rintro ⟨k, mem, own⟩
  obtain ⟨k', mem', own', ready⟩ := able
  have same := List.inj_on_of_nodup_map named.distinct (List.mem_of_mem_take mem) mem' (own.trans own'.symm)
  rw [← same, front k mem] at ready
  cases ready

theorem front_of_chosen {i : Nat} (chosen : s.connections.findIdx? (·.ableToSend p) = some i)
    : ∀ k ∈ s.connections.take i, k.ableToSend p = false := by
  obtain ⟨_, _, front⟩ := List.findIdx?_eq_some_iff_getElem.mp chosen
  intro k mem
  obtain ⟨j, lt, rfl⟩ := List.mem_take_iff_getElem.mp mem
  simpa using front j (by omega)

/-- The connection `b` was selected, and `a` was not selected since: `a` comes first. -/
structure WaitsTurn (a b : Addr) (s : Server) : Prop where
  named : Named s
  given : b < s.heap.next
  ahead : Ahead (names s) a b ∨ b ∉ names s

theorem WaitsTurn.selected (named : Named s) (selects : Selects p b s) (step : Step p s .send s')
    (able : Able p a s') (other : a ≠ b)
    : WaitsTurn a b s' := by
  obtain ⟨rst, chosen⟩ := selects
  obtain ⟨i, chosen, here⟩ := Option.bind_eq_some_iff.mp chosen
  have mem : b ∈ names s := List.mem_of_getElem? here
  have next := step_keeps (allocatorInv_next s.heap.next) step (Nat.le_refl _)
  refine ⟨named.step step, Nat.lt_of_lt_of_le (named.given b mem) next, ?_⟩
  have before : a ∈ names s := by
    have mem' := able.mem
    rcases smewsSend_served step rst chosen with ring | ring <;> rw [ring, List.mem_append] at mem'
    all_goals exact mem'.elim List.mem_of_mem_drop List.mem_of_mem_take
  rcases smewsSend_served step rst chosen with ring | ring <;> rw [ring]
  · exact .inl (ahead_of_served here before other)
  · exact .inr (notMem_moved named.distinct here)

theorem WaitsTurn.step {event : Event} (waiting : WaitsTurn a b s) (step : Step p s event s') (able : Able p a s)
    (able' : Able p a s') (kept : TurnsKept p s s') (unselected : ¬ (event = .send ∧ Selects p a s))
    : WaitsTurn a b s' := by
  obtain ⟨named, given, ahead⟩ := waiting
  have next := step_keeps (allocatorInv_next s.heap.next) step (Nat.le_refl _)
  refine ⟨named.step step, Nat.lt_of_lt_of_le given next, ?_⟩
  have moved {i j : Nat} (ring : names s' = (names s).drop (i + 1) ++ (names s).take j)
      (front : a ∉ (names s).take (i + 1))
      : Ahead (names s') a b ∨ b ∉ names s' := by
    rcases ahead with ahead | absent
    · rw [ring]
      exact .inl ((ahead.behind front).append _)
    · refine .inr fun mem => absent ?_
      rw [ring, List.mem_append] at mem
      exact mem.elim List.mem_of_mem_drop List.mem_of_mem_take
  cases step_names step with
  | same ring => rwa [ring]
  | added c fresh _ ring =>
      rw [ring]
      rcases ahead with ahead | absent
      · exact .inl (ahead.append [c])
      · refine .inr ?_
        rw [List.mem_append, List.mem_singleton, not_or]
        exact ⟨absent, Nat.ne_of_lt (Nat.lt_of_lt_of_le given fresh)⟩
  | freed i inside ring =>
      have lt : i < (names s).length := by rwa [names, List.length_map]
      have here := List.getElem?_eq_getElem lt
      have gone := notMem_moved named.distinct here
      rw [← ring] at gone
      have at_i : (names s)[i] = (s.connections[i]).addr := List.getElem_map _
      have front := able.notMem_take named (kept i inside _ (List.getElem?_eq_getElem inside) (at_i ▸ gone))
      refine moved ring (notMem_take_succ front ?_)
      rw [here]
      intro own
      rw [Option.some.inj own] at gone
      exact gone able'.mem
  | served i send rst chosen ring =>
      have front := able.notMem_take named (front_of_chosen chosen)
      have here : (names s)[i]? ≠ some a := fun here => unselected ⟨send, rst, by rw [chosen]; exact here⟩
      rcases ring with ring | ring <;> exact moved ring (notMem_take_succ front here)

/-- The waiting connection in an interval, by induction on the steps. -/
theorem WaitsTurn.run {events : List Event} (waiting : WaitsTurn a b s) (able : Able p a s')
    (run : Run (fun s event s' => AbleStep p a s event s' ∧ ¬ (event = .send ∧ Selects p a s)) s events s')
    : WaitsTurn a b s' := by
  induction run with
  | nil s => exact waiting
  | @cons s mid s' event events first rest ih =>
      obtain ⟨⟨step, able_s, kept⟩, unselected⟩ := first
      have able_mid : Able p a mid := by
        cases rest with
        | nil _ => exact able
        | cons next _ => exact next.1.2.1
      exact ih (waiting.step step able_s able_mid kept unselected) able

/-- The connection behind a waiting one is not selected. -/
theorem WaitsTurn.not_selected (waiting : WaitsTurn a b s) (able : Able p a s) : ¬ Selects p b s := by
  rintro ⟨-, chosen⟩
  obtain ⟨i, chosen, here⟩ := Option.bind_eq_some_iff.mp chosen
  rcases waiting.ahead with ahead | absent
  · exact ahead.not_served waiting.named.distinct (able.notMem_take waiting.named (front_of_chosen chosen)) here
  · exact absent (List.mem_of_getElem? here)

end Turns

/-- In every run, between two selections of a connection each other one that is able to send all the time is selected,
if no connection is freed behind one that is able to send meanwhile.
-/
theorem selected_between {start before first last : Server} {earlier events : List Event} {a b : Addr}
    (initial : Initial start) (past : Run (Step p) start earlier before) (selects : Selects p b before)
    (step : Step p before .send first) (run : Run (AbleStep p a) first events last) (able : Able p a last)
    (again : Selects p b last) (other : a ≠ b)
    : ∃ events₁ events₂ mid mid', events = events₁ ++ .send :: events₂ ∧ Run (AbleStep p a) first events₁ mid
        ∧ Selects p a mid ∧ AbleStep p a mid .send mid' ∧ Run (AbleStep p a) mid' events₂ last := by
  have named : Named before := by
    refine past.invariant Named (fun named step => named.step step) ⟨?_, ?_⟩
    · rw [names, initial.connections]
      exact List.nodup_nil
    · rw [names, initial.connections]
      exact fun _ mem => nomatch mem
  rcases run.find fun s event => event = .send ∧ Selects p a s with
    ⟨events₁, _, events₂, mid, mid', split, run₁, ⟨rfl, selected⟩, step', run₂⟩ | none
  · exact ⟨events₁, events₂, mid, mid', split, run₁, selected, step', run₂⟩
  · have able_first : Able p a first := by
      cases run with
      | nil _ => exact able
      | cons next _ => exact next.2.1
    have waiting := (WaitsTurn.selected named selects step able_first other).run able none
    exact absurd again (waiting.not_selected able)

--------------------------------------------------
-- Three clients
--------------------------------------------------

instance (a : Addr) (s : Server) : Decidable (Able p a s) := inferInstanceAs (Decidable (∃ k ∈ s.connections, _))

instance (a : Addr) (s : Server) : Decidable (Selects p a s) := inferInstanceAs (Decidable (_ ∧ _))

instance (s s' : Server) : Decidable (TurnsKept p s s') :=
  inferInstanceAs (Decidable (∀ i < s.connections.length, ∀ k ∈ s.connections[i]?, k.addr ∉ names s' →
    ∀ waiting ∈ s.connections.take i, waiting.ableToSend p = false))

/-- A segment of the client with a port. -/
def clientEvent (port : UInt16) (seqno ackno : UInt32) (flags : UInt8) (payload : List UInt8)
    (fits : 40 + 4 + payload.length < 65536)
    : Event :=
  .receive { clientSegment seqno ackno flags 8192 [2, 4, 3, 232] payload fits with srcPort := port }

def clientOpens (port : UInt16) : Event := clientEvent port 1000 0 tcpSyn [] (by decide)
def clientEstablishes (port : UInt16) : Event := clientEvent port 1001 0x42b7a492 tcpAck [] (by decide)
def clientRequests (port : UInt16) : Event :=
  clientEvent port 1001 0x42b7a492 (tcpAck ||| tcpPsh) (ascii "GET /a HTTP/1.1\r\n\r\n") (by decide)
def clientResets (port : UInt16) : Event := clientEvent port 1001 0x42b7a492 tcpRst [] (by decide)

/-- The connections of three clients, named 0, 1 and 2. Nothing is to be sent on the first one. -/
def threeClients : List Event :=
  [clientOpens 4000, .send, clientEstablishes 4000, clientOpens 4001, clientOpens 4002]

/-- Connection 1 is selected twice while 2 waits for its turn: 0, which is between them, is reset. -/
theorem not_selected_between
    : ∃ before first last,
        Run (Step (oneGenerator hello noArgs)) bootServer threeClients before
        ∧ Selects (oneGenerator hello noArgs) 1 before ∧ Step (oneGenerator hello noArgs) before .send first
        ∧ Run (fun s event s' => next (oneGenerator hello noArgs) s event = some s'
              ∧ Able (oneGenerator hello noArgs) 2 s) first
            [clientResets 4000, clientEstablishes 4001, clientRequests 4001] last
        ∧ Able (oneGenerator hello noArgs) 2 last ∧ Selects (oneGenerator hello noArgs) 1 last := by
  have checked : ((runChecked (next (oneGenerator hello noArgs)) (fun _ _ => True) threeClients bootServer).bind
      fun before => (next (oneGenerator hello noArgs) before .send).bind fun first =>
        (runChecked (next (oneGenerator hello noArgs)) (fun s _ => Able (oneGenerator hello noArgs) 2 s)
          [clientResets 4000, clientEstablishes 4001, clientRequests 4001] first).map fun last =>
            (decide (Selects (oneGenerator hello noArgs) 1 before), decide (Able (oneGenerator hello noArgs) 2 last),
              decide (Selects (oneGenerator hello noArgs) 1 last)))
      = some (true, true, true) := by
    decide +kernel
  simp only [Option.bind_eq_some_iff, Option.map_eq_some_iff, Prod.mk.injEq, decide_eq_true_eq] at checked
  obtain ⟨before, past, first, step, last, run, selects, able, again⟩ := checked
  exact ⟨before, first, last, (Run.of_checked past).mono And.left, selects, step, Run.of_checked run, able, again⟩

/-- A page of two segments. -/
def longPage : DynamicResource := ⟨.get fun _ _ => writes (List.replicate 300 46), .idempotent⟩

/-- The connections of three clients, two of which have asked for the page. -/
def twoRequests : List Event :=
  [clientOpens 4000, .send, clientEstablishes 4000, clientOpens 4001, .send, clientOpens 4002, .send,
    clientEstablishes 4001, clientEstablishes 4002, clientRequests 4001, clientRequests 4002]

/-- Whether a connection is able to send before an event that keeps the turns. -/
def KeepsTurns (p : Program) (a : Addr) (s : Server) (event : Event) : Prop :=
  Able p a s ∧ ∀ s' ∈ next p s event, TurnsKept p s s'

instance (a : Addr) (s : Server) (event : Event) : Decidable (KeepsTurns p a s event) :=
  inferInstanceAs (Decidable (_ ∧ _))

/-- Connection 1 is selected twice, and 2 in between; 0 is reset when it comes first. -/
theorem selected_between_two
    : ∃ first last events₁ events₂ mid mid', [.send, clientResets 4000] = events₁ ++ .send :: events₂
        ∧ Run (AbleStep (oneGenerator longPage noArgs) 2) first events₁ mid
        ∧ Selects (oneGenerator longPage noArgs) 2 mid ∧ AbleStep (oneGenerator longPage noArgs) 2 mid .send mid'
        ∧ Run (AbleStep (oneGenerator longPage noArgs) 2) mid' events₂ last := by
  have checked : ((runChecked (next (oneGenerator longPage noArgs)) (fun _ _ => True) twoRequests bootServer).bind
      fun before => (next (oneGenerator longPage noArgs) before .send).bind fun first =>
        (runChecked (next (oneGenerator longPage noArgs)) (KeepsTurns (oneGenerator longPage noArgs) 2)
          [.send, clientResets 4000] first).map fun last =>
            (decide (Selects (oneGenerator longPage noArgs) 1 before),
              decide (Able (oneGenerator longPage noArgs) 2 last),
              decide (Selects (oneGenerator longPage noArgs) 1 last)))
      = some (true, true, true) := by
    decide +kernel
  simp only [Option.bind_eq_some_iff, Option.map_eq_some_iff, Prod.mk.injEq, decide_eq_true_eq] at checked
  obtain ⟨before, past, first, step, last, run, selects, able, again⟩ := checked
  refine ⟨first, last, selected_between bootServer_initial ((Run.of_checked past).mono And.left) selects step ?_ able
    again (by decide)⟩
  exact (Run.of_checked run).mono fun step => ⟨step.1, step.2.1, step.2.2 _ step.1⟩

end Smews.System
