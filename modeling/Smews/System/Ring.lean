import Smews.Input.Received
import Smews.System.SegmentBounds

/-! The ring under the events that do not serve HTTP connections.
-/

namespace Smews.System

open Smews.Core Input Output Runs

variable {p : Program}

/-- A packet of another protocol leaves the HTTP connections as they are. -/
theorem smewsReceiveGpIp_http {srcAddr : UInt32} {protocol : UInt8} {payload : List UInt8}
    {s s' : Server} (step : smewsReceiveGpIp p srcAddr protocol payload s = some s')
    {a : Addr} {c : HttpConnection} (mem : ⟨a, .http c⟩ ∈ s'.connections)
    : ⟨a, .http c⟩ ∈ s.connections := by
  cases smewsReceiveGpIp_receives step with
  | unknown _ same | exhausted _ _ same | dropped _ _ _ _ _ _ _ _ same =>
      subst same
      exact mem
  | accepted h g b heap code _ _ _ _ _ same =>
      subst same
      simpa using mem

theorem requestPacketOutCall_http {protocol : UInt8} {address : UInt32} {s : Server} {a : Addr}
    {c : HttpConnection} (mem : ⟨a, .http c⟩ ∈ (requestPacketOutCall p protocol address s).connections)
    : ⟨a, .http c⟩ ∈ s.connections := by
  unfold requestPacketOutCall at mem
  split at mem
  · exact mem
  · rename_i handler _
    rcases addConnection_cases (p := p) s (.gpip {
        ipAddr := address
        outputHandler := handler
        payloadSize := 0
        protocol
        wantToSend := 1
      }) with ⟨-, kept⟩ | ⟨b, -, ring⟩
    · rwa [kept] at mem
    · simpa [ring] using mem

/-- A change of every HTTP connection. -/
theorem mem_mapHttp {f : HttpConnection → HttpConnection} {s : Server} {a : Addr}
    {c : HttpConnection}
    : ⟨a, .http c⟩ ∈ (mapHttp f s).connections ↔ ∃ d, ⟨a, .http d⟩ ∈ s.connections ∧ c = f d := by
  unfold mapHttp
  rw [List.mem_map]
  constructor
  · rintro ⟨⟨b, protocol⟩, mem, eq⟩
    cases protocol with
    | gpip g => cases eq
    | http d =>
        simp only [Connection.mk.injEq, Protocol.http.injEq] at eq
        obtain ⟨rfl, rfl⟩ := eq
        exact ⟨d, mem, rfl⟩
  · rintro ⟨d, mem, rfl⟩
    exact ⟨⟨a, .http d⟩, mem, rfl⟩

theorem smewsSend_extends {s s' : Server} (step : smewsSend p s = some s')
    : ∃ more, s'.sent = s.sent ++ more := by
  cases smewsSend_sends step with
  | nothing _ _ same => exact ⟨[], by rw [same, List.append_nil]⟩
  | reset rst same => exact ⟨_, by rw [same]; rfl⟩
  | gpip i before a g rst chosen ring answered =>
      obtain ⟨_, -, sent⟩ := answered.sent
      exact ⟨_, sent⟩
  | http i before a c rst chosen able ring serves => exact serves.extends_

/-- The history of packets grows with every step. -/
theorem step_extends {event : Event} {s s' : Server} (step : Step p s event s')
    : ∃ more, s'.sent = s.sent ++ more := by
  by_cases send : event.isSend
  · cases event <;> simp only [Event.isSend, reduceCtorEq] at send
    exact smewsSend_extends step
  · exact ⟨[], by rw [step_sent step send, List.append_nil]⟩

/-- A member of the ring after a store into the connection at a position. -/
theorem mem_setHttp {s : Server} {i : Nat} {a b : Addr} {c c' d : HttpConnection}
    (at_i : s.connections[i]? = some ⟨a, .http c⟩)
    (mem : ⟨b, .http d⟩ ∈ (s.setHttp i c').connections)
    : ⟨b, .http d⟩ ∈ s.connections ∨ (b = a ∧ d = c') := by
  obtain ⟨j, at_j⟩ := List.mem_iff_getElem?.mp mem
  simp only [Server.setHttp, List.getElem?_modify] at at_j
  by_cases hj : i = j
  · subst hj
    simp only [at_i, if_pos, Option.map_eq_map, Option.map_some, Option.some.injEq,
      Connection.mk.injEq, Protocol.http.injEq] at at_j
    exact .inr ⟨at_j.1.symm, at_j.2.symm⟩
  · simp only [if_neg hj, Option.map_eq_map, Option.map_id'] at at_j
    exact .inl (List.mem_of_getElem? at_j)

/-- A member of the ring that a generator served. -/
theorem mem_ringServed {h : HandlerRef} {s s' : Server} {a : Addr} {c' : HttpConnection}
    (served : RingServed p h s s') (mem : ⟨a, .http c'⟩ ∈ s'.connections)
    : ∃ c, ⟨a, .http c⟩ ∈ s.connections ∧ (c' = c ∨ Served h c c') := by
  obtain ⟨i, lt', at_i'⟩ := List.mem_iff_getElem.mp mem
  obtain ⟨length, each⟩ := List.forall₂_iff_get.mp served.ring
  have lt : i < s.connections.length := length ▸ lt'
  have by_i := each i lt lt'
  simp only [List.get_eq_getElem, at_i'] at by_i
  have member := List.getElem_mem lt
  rcases by_i with same | ⟨c, d, isHttp, same, pair⟩
  · exact ⟨c', same ▸ member, .inl rfl⟩
  · cases connection : s.connections[i] with
    | mk b protocol =>
    rw [connection] at same isHttp member
    cases same
    cases isHttp
    exact ⟨c, member, .inr pair⟩

end Smews.System
