import Smews.System.ReceivedPackets
import Smews.Targets.LinuxDriver

/-! Calls of `smews_receive` on Linux: whether each of them begins with a datagram and ends with it.
-/

namespace Smews.System

open Smews.Core Input Input.Device ByteSource Partial OnesComplement Runs Linux

--------------------------------------------------
-- The server and its driver
--------------------------------------------------

/-- The driver, and the server behind it. -/
structure Host where
  driver : Driver
  server : Server

/-- A datagram arrives between two calls, `smews_receive` is called, or anything else happens to
the server. While `smews_receive` runs, its waits for more bytes meet what is coming.
-/
inductive HostEvent
  | arrive (g : Datagram)
  | receive (coming : List (Option Datagram))
  | other (event : Event)

/-- What came and was not waited for is still to be read. -/
def settle (d : Driver) : Driver :=
  { d with queue := d.queue ++ d.coming.filterMap id, coming := [] }

/-- The host after an event, unless the behaviour of the source is undefined. -/
def hostNext (p : Program) (x : Host) : HostEvent → Option Host
  | .arrive g => some { x with driver := { x.driver with queue := x.driver.queue ++ [g] } }
  | .receive coming =>
      let d := { x.driver with coming }
      if d.dataToRead then
        (Device.smewsReceive Driver.source p x.server ⟨d, Checksum.init⟩).map fun y =>
          ⟨settle y.2.source, y.1⟩
      else some { x with driver := settle d }
  | .other (.receive _) | .other (.receiveGpIp ..) => none
  | .other event => (next p x.server event).map fun server => { x with server }

def HostStep (p : Program) (x : Host) (event : HostEvent) (x' : Host) : Prop :=
  hostNext p x event = some x'

--------------------------------------------------
-- The property
--------------------------------------------------

/-- `smews_receive` begins with the first byte of the datagram `g`, reads it to its end and leaves the
ones behind it. When it has the length that its header asks for, it does to the server what its
bytes say, whatever was received before.
-/
structure Delimited (p : Program) (x x' : Host) (g : Datagram) (later : List Datagram) : Prop where
  begins : x.driver.Exhausted
  ends : x'.driver.Exhausted
  leaves : x'.driver.queue = later
  same : g.received.length = bytesRead p x.server (byteAt g.received) →
    receivedPacket p x.server (byteAt g.received) = some x'.server

/-- A step whose datagram, if it is a call of `smews_receive` that reads one, is bounded. -/
def DelimitedStep (p : Program) (x : Host) (event : HostEvent) (x' : Host) : Prop :=
  HostStep p x event x' ∧ ∀ coming g queue, event = .receive coming → x.driver.queue = g :: queue →
    Delimited p x x' g (queue ++ coming.filterMap id)

--------------------------------------------------
-- The condition
--------------------------------------------------

/-- A datagram has as many bytes as are read of it; or it has fewer, no other one waits, and none comes
while it is read. No `cr_prepare` fails before its end.
-/
structure Fits (p : Program) (s : Server) (g : Datagram) (queue : List Datagram)
    (coming : List (Option Datagram))
    : Prop where
  complete : Complete p s (byteAt g.received)
  length : g.received.length = bytesRead p s (byteAt g.received)
    ∨ g.received.length < bytesRead p s (byteAt g.received) ∧ queue = [] ∧ ∀ c ∈ coming, c = none

/-- A step whose datagram fits. -/
def CompleteStep (p : Program) (x : Host) (event : HostEvent) (x' : Host) : Prop :=
  HostStep p x event x' ∧ ∀ coming g queue, event = .receive coming → x.driver.queue = g :: queue →
    Fits p x.server g queue coming

--------------------------------------------------
-- Calls
--------------------------------------------------

/-- The bytes of a list, and zeros behind it. -/
theorem bytesFrom_padded {bytes : List UInt8} {n : Nat} (le : bytes.length ≤ n)
    : bytesFrom (byteAt bytes) 0 n = bytes ++ bytesFrom (byteAt bytes) bytes.length (n - bytes.length) := by
  conv_lhs => rw [← Nat.add_sub_cancel' le, bytesFrom_add]
  rw [bytesFrom_byteAt (by omega), List.drop_zero, List.take_length, Nat.zero_add]

variable {p : Program} {x x' : Host} {g : Datagram} {queue : List Datagram}
  {coming : List (Option Datagram)}

/-- A datagram that fits is bounded. -/
theorem Fits.delimited (fits : Fits p x.server g queue coming) (exhausted : x.driver.Exhausted)
    (waits : x.driver.queue = g :: queue) (step : HostStep p x (.receive coming) x')
    : Delimited p x x' g (queue ++ coming.filterMap id) := by
  let d := { x.driver with coming }
  have waits' : d.queue = g :: queue := waits
  have exhausted' : d.Exhausted := exhausted
  have reads : d.dataToRead = true := by simp [Driver.dataToRead, waits']
  rw [HostStep, hostNext, if_pos reads, Option.map_eq_some_iff] at step
  obtain ⟨⟨server, r⟩, received, rfl⟩ := step
  rcases fits.length with exact_length | ⟨short, rfl, silent⟩
  · have bytes : bytesFrom (byteAt g.received) 0 (bytesRead p x.server (byteAt g.received))
        = g.received := by
      rw [← exact_length, bytesFrom_byteAt (by omega), List.drop_zero, List.take_length]
    have delivers : Delivers Driver.source (fun _ => False) (Driver.Behind queue coming) d
        (bytesFrom (byteAt g.received) 0 (bytesRead p x.server (byteAt g.received))) := by
      rw [bytes]
      exact Driver.delivers_datagram exhausted' waits'
    have follows := smewsReceive_follows (p := p) (s := x.server)
      (fun _ isDry => isDry.elim) (r := ⟨d, Checksum.init⟩) delivers
    obtain ⟨-, undefined⟩ | ⟨s', y, packet, received', rfl, consumed⟩ :=
      follows.of_not_escapes fun ⟨_, isDry⟩ => isDry
    · rw [received] at undefined
      exact nomatch undefined
    · rw [received] at received'
      cases received'
      obtain ⟨behind, -⟩ := consumed fits.complete
      refine ⟨exhausted, behind.exhausted, ?_, fun _ => packet⟩
      change r.source.queue ++ r.source.coming.filterMap id = _
      rw [behind.queue, behind.coming]
  · have delivers : Delivers Driver.source Driver.Silent Driver.Silent d
        (bytesFrom (byteAt g.received) 0 (bytesRead p x.server (byteAt g.received))) := by
      rw [bytesFrom_padded (by omega)]
      exact Driver.delivers_alone exhausted' waits' silent
    have after : r.source.Silent := by
      have follows := smewsReceive_follows (p := p) (s := x.server) Driver.silent_stays
        (r := ⟨d, Checksum.init⟩) delivers
      rw [received] at follows
      generalize receivedPacket p x.server (byteAt g.received) = packet at follows
      cases follows with
      | related related => exact (related.2 fits.complete).source
      | escaped _ silent => exact silent _ rfl
    have nothing {coming : List (Option Datagram)} (silent : ∀ c ∈ coming, c = none)
        : coming.filterMap id = [] := by
      rw [List.filterMap_eq_nil_iff]
      exact silent
    refine ⟨exhausted, after.exhausted, ?_, fun exact_length => absurd exact_length (by omega)⟩
    change r.source.queue ++ r.source.coming.filterMap id = _
    rw [after.queue, nothing after.coming, nothing silent]

/-- The buffer stays exhausted. -/
theorem CompleteStep.exhausted {event : HostEvent} (step : CompleteStep p x event x')
    (exhausted : x.driver.Exhausted)
    : x'.driver.Exhausted := by
  obtain ⟨stepped, fits⟩ := step
  cases event with
  | arrive g =>
      cases stepped
      exact exhausted
  | receive coming =>
      cases waits : x.driver.queue with
      | nil =>
          have idle : ({ x.driver with coming } : Driver).dataToRead = false := by
            simp [Driver.dataToRead, waits]
          rw [HostStep, hostNext, idle] at stepped
          cases stepped
          exact exhausted
      | cons g queue => exact ((fits coming g queue rfl waits).delimited exhausted waits stepped).ends
  | other event =>
      have kept (stepped : ((next p x.server event).map fun server => { x with server }) = some x')
          : x'.driver.Exhausted := by
        rw [Option.map_eq_some_iff] at stepped
        obtain ⟨server, -, rfl⟩ := stepped
        exact exhausted
      cases event with
      | receive _ => exact nomatch stepped
      | receiveGpIp _ _ _ => exact nomatch stepped
      | _ => exact kept stepped

--------------------------------------------------
-- Runs
--------------------------------------------------

/-- The host after `smews_init`. -/
def bootHost : Host := { driver := Driver.init, server := bootServer }

/-- The datagram of a `SYN`. -/
def synDatagram : Datagram := ⟨synPacket.bytes, List.cons_ne_nil _ _⟩

/-- An IPv6 packet without payload. -/
def ipv6Datagram : Datagram := ⟨0x60 :: List.replicate 39 0, List.cons_ne_nil _ _⟩

end Smews.System
