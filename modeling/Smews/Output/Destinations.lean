import Smews.Output.TransmissionTimes

/-! The destinations of the segments of a generator: they go to connections of the ring that wait for its handler.
-/

namespace Smews.Output

open Smews.Core

variable {p : Program} {h : HandlerRef} {s s' : Server} {ring ring' : List Connection}

/-- The name of a connection, its peer, and the handler that it waits for. -/
def lineOf (k : Connection) : Addr × Option ((UInt32 × UInt16) × Option HandlerRef) :=
  match k.protocol with
  | .http c => (k.addr, some ((c.ipAddr, c.port), c.outputHandler))
  | .gpip _ => (k.addr, none)

/-- The packets go to connections of a ring that wait for a handler. -/
def Destined (h : HandlerRef) (ring : List Connection) (new : List (Option Addr × Packet)) : Prop :=
  ∀ entry ∈ new, ∃ a c, ⟨a, .http c⟩ ∈ ring ∧ c.outputHandler = some h ∧ entry.1 = some a
    ∧ sentTo (c.ipAddr, c.port) entry

theorem Destined.nil : Destined h ring [] := fun _ mem => absurd mem List.not_mem_nil

theorem Destined.of_lines {new : List (Option Addr × Packet)} (same : ring'.map lineOf = ring.map lineOf)
    (addressed : Destined h ring' new)
    : Destined h ring new := by
  intro entry mem
  obtain ⟨a, c, mem, handler, name, reaches⟩ := addressed entry mem
  have line : lineOf ⟨a, .http c⟩ ∈ ring.map lineOf := same ▸ List.mem_map_of_mem mem
  obtain ⟨⟨b, protocol⟩, mem', eq⟩ := List.mem_map.mp line
  cases protocol with
  | gpip g => cases eq
  | http d =>
      simp only [lineOf, Prod.mk.injEq, Option.some.injEq] at eq
      obtain ⟨rfl, ⟨ip, port⟩, handler'⟩ := eq
      exact ⟨b, d, mem', handler'.trans handler, name, by rwa [ip, port]⟩

theorem packetFor_sentTo (a : Addr) (c : HttpConnection) (payload : List UInt8)
    : sentTo (c.ipAddr, c.port) (some a, packetFor p c h payload) := by
  simp [sentTo, packetFor]

/-- The emission of the current segment. -/
theorem emit_destined {i : Nat} {resource : DynamicResource} {ended : Bool} {a : Addr} {c : HttpConnection}
    (send : emit p i h ended s = some s') (generator : (p.handler h).data = .generator resource)
    (at_i : s.connections[i]? = some ⟨a, .http c⟩) (handler : c.outputHandler = some h)
    : ∃ new, s'.sent = s.sent ++ new ∧ Destined h s.connections new := by
  by_cases comet : (p.handler h).handlerComet
  · obtain ⟨-, -, sent⟩ := emit_comet send generator comet
    refine ⟨_, sent, fun entry mem => ?_⟩
    obtain ⟨⟨b, protocol⟩, member, mem⟩ := List.mem_flatMap.mp mem
    cases protocol with
    | gpip g => exact absurd mem List.not_mem_nil
    | http d =>
        unfold multicastPackets at mem
        dsimp only at mem
        split at mem
        · rename_i listens
          rw [List.mem_singleton] at mem
          subst mem
          simp only [Bool.and_eq_true, listensNow, decide_eq_true_eq] at listens
          exact ⟨b, d, member, listens.1.1, rfl, packetFor_sentTo _ d _⟩
        · exact absurd mem List.not_mem_nil
  · rw [emit, if_neg comet] at send
    obtain ⟨b, d, h', payload, at_i', handler', -, rfl⟩ := sendPacket_spec send
    rw [at_i] at at_i'
    cases at_i'
    rw [handler] at handler'
    cases handler'
    refine ⟨_, rfl, fun entry mem => ?_⟩
    rw [List.mem_singleton] at mem
    subst mem
    exact ⟨a, c, List.mem_of_getElem? at_i, handler, rfl, packetFor_sentTo _ c _⟩

theorem openService_lines {i : Nat} {c : HttpConnection} (resource : DynamicResource) (here : s.http i = some c)
    : (openService p i c h resource s).2.connections.map lineOf = s.connections.map lineOf
      ∧ (openService p i c h resource s).2.sent = s.sent := by
  unfold openService createService initService
  dsimp only
  split
  · exact ⟨rfl, rfl⟩
  · split
    · exact ⟨rfl, rfl⟩
    · rename_i a heap _
      have stored (streaming : Bool)
          : (s.setHttp i { c with
              generatorService := some a
              finalOutseqno := c.nextOutseqno - 1
              cometStreaming := streaming }).connections.map lineOf = s.connections.map lineOf :=
        map_setHttp lineOf here fun _ => rfl
      dsimp only
      split
      · exact ⟨(map_markPassive lineOf i h _ fun _ _ _ => rfl).trans (stored _), rfl⟩
      · exact ⟨stored _, rfl⟩

/-- The connection at a position, when the ring has the same lines as another one. -/
theorem http_of_lines {t : Server} {i : Nat} {a : Addr} {c : HttpConnection}
    (same : t.connections.map lineOf = s.connections.map lineOf) (at_i : s.connections[i]? = some ⟨a, .http c⟩)
    : ∃ d, t.connections[i]? = some ⟨a, .http d⟩ ∧ t.http i = some d ∧ d.outputHandler = c.outputHandler := by
  have line := congrArg (·[i]?) same
  simp only [List.getElem?_map, at_i, Option.map_some] at line
  obtain ⟨⟨b, protocol⟩, at_i', eq⟩ := Option.map_eq_some_iff.mp line
  cases protocol with
  | gpip g => cases eq
  | http d =>
      simp only [lineOf, Prod.mk.injEq, Option.some.injEq] at eq
      obtain ⟨rfl, -, handler⟩ := eq
      exact ⟨d, at_i', by simp [Server.http, at_i'], handler⟩

/-- A call of `smews_send` for a generator. -/
theorem sendGenerator_destined {i : Nat} {resource : DynamicResource} {a : Addr} {c : HttpConnection}
    (send : sendGenerator p i h resource s = some s') (generator : (p.handler h).data = .generator resource)
    (at_i : s.connections[i]? = some ⟨a, .http c⟩) (handler : c.outputHandler = some h)
    : ∃ new, s'.sent = s.sent ++ new ∧ Destined h s.connections new := by
  have here : s.http i = some c := by simp [Server.http, at_i]
  rw [sendGenerator_eq here] at send
  obtain ⟨opened, sent⟩ := openService_lines (p := p) (h := h) resource here
  generalize openService p i c h resource s = service at send opened sent
  obtain ⟨b, t⟩ := service
  cases b with
  | none =>
      cases send
      exact ⟨[], by rw [sent, List.append_nil], .nil⟩
  | some b =>
      dsimp only at send opened sent
      obtain ⟨d, at_i', here', handler'⟩ := http_of_lines opened at_i
      rw [sendService_eq here', Option.bind_eq_some_iff] at send
      obtain ⟨progress, prepared, rest⟩ := send
      obtain ⟨request, -, ring', sent'⟩ := prepareSegment_ring prepared here'
      have same : progress.state.connections.map lineOf = t.connections.map lineOf := by
        rw [ring']
        exact map_setHttp lineOf here' fun _ => rfl
      cases progress with
      | stop u =>
          cases rest
          exact ⟨[], by rw [List.append_nil]; exact sent'.trans sent, .nil⟩
      | go ended u =>
          dsimp only [Progress.state] at rest sent' same
          rw [Option.bind_eq_some_iff] at rest
          obtain ⟨v, emits, concluded⟩ := rest
          obtain ⟨e, at_i'', -, handler''⟩ := http_of_lines same at_i'
          obtain ⟨new, sent'', addressed⟩ :=
            emit_destined emits generator at_i'' (handler''.trans (handler'.trans handler))
          refine ⟨new, ?_, (addressed.of_lines same).of_lines opened⟩
          rw [(concludeSegment_quiet concluded).1, sent'', sent', sent]

end Smews.Output
