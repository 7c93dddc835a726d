import Smews.Library.ByteSource
import Mathlib.Data.List.Basic

/-! The input side of the driver for the TUN device of Linux.
-/

namespace Smews.Linux

open ByteSource

--------------------------------------------------
-- The driver
--------------------------------------------------

/-- A datagram of the TUN device. -/
structure Datagram where
  bytes : List UInt8
  nonempty : bytes ≠ []

/-- `INBUF_SIZE`. -/
def inbufSize : Nat := 2048

/-- What the TUN device puts before each datagram: flags, and the protocol. -/
def packetInfo : List UInt8 := [0, 0, 0x08, 0x00]

/-- The bytes of a datagram that the input buffer holds. -/
def Datagram.received (g : Datagram) : List UInt8 := g.bytes.take (inbufSize - packetInfo.length)

/-- The variables of the driver, and its environment: the datagrams that wait at the TUN device, and
what each further wait for one meets, a datagram or the end of the 50 milliseconds.
-/
structure Driver where
  inBuffer : Nat → UInt8
  inCurr : Int
  inNbytes : Int
  queue : List Datagram
  coming : List (Option Datagram)

namespace Driver

/-- `in_buffer[++in_curr]`. -/
def advance (d : Driver) : UInt8 × Driver :=
  (d.inBuffer (d.inCurr + 1).toNat, { d with inCurr := d.inCurr + 1 })

/-- `read`, and `in_curr` before the first byte behind the packet information. -/
def readTun (d : Driver) (g : Datagram) : Driver :=
  let frame := (packetInfo ++ g.bytes).take inbufSize
  {
    d with
    inBuffer := fun i => if i < frame.length then frame.getD i 0 else d.inBuffer i
    inNbytes := frame.length
    inCurr := -1 + 4
  }

/-- `dev_get`. -/
def devGet (d : Driver) : Option UInt8 × Driver :=
  if d.inNbytes - 1 ≤ d.inCurr then
    match d.queue, d.coming with
    | g :: queue, _ =>
        let (c, d) := ({ d with queue }.readTun g).advance
        (some c, d)
    | [], some g :: coming =>
        let (c, d) := ({ d with coming }.readTun g).advance
        (some c, d)
    | [], none :: coming => (none, { d with coming })
    | [], [] => (none, d)
  else
    let (c, d) := d.advance
    (some c, d)

/-- `dev_data_to_read`. -/
def dataToRead (d : Driver) : Bool := d.queue ≠ []

/-- After `dev_init`. -/
def init : Driver :=
  { inBuffer := fun _ => 0, inCurr := 0, inNbytes := 0, queue := [], coming := [] }

/-- `DEV_GET`. -/
def source : Source Driver := ⟨devGet⟩

--------------------------------------------------
-- What is left of a datagram
--------------------------------------------------

/-- All of the buffer was read: the next byte is the first one of a datagram. -/
def Exhausted (d : Driver) : Prop := d.inNbytes - 1 ≤ d.inCurr

instance (d : Driver) : Decidable d.Exhausted := by
  unfold Exhausted
  infer_instance

/-- The bytes of the buffer that were not read. -/
def unread (d : Driver) : List UInt8 :=
  (List.range' (d.inCurr + 1).toNat (d.inNbytes - 1 - d.inCurr).toNat).map d.inBuffer

variable {d : Driver}

theorem exhausted_iff (d : Driver) : d.Exhausted ↔ d.unread = [] := by
  rw [Exhausted, unread, List.map_eq_nil_iff, List.range'_eq_nil_iff]
  omega

/-- `in_curr` does not lie before the packet information. -/
def Started (d : Driver) : Prop := -1 ≤ d.inCurr

theorem advance_unread {b : UInt8} {rest : List UInt8} (started : d.Started)
    (unread : d.unread = b :: rest)
    : d.advance.1 = b ∧ d.advance.2.unread = rest ∧ ¬ d.Exhausted ∧ d.advance.2.Started := by
  have more : ¬ d.Exhausted := by
    rw [exhausted_iff, unread]
    exact List.cons_ne_nil b rest
  have count : (d.inNbytes - 1 - d.inCurr).toNat = (d.inNbytes - 1 - (d.inCurr + 1)).toNat + 1 := by
    rw [Exhausted] at more
    omega
  have next : (d.inCurr + 1).toNat + 1 = (d.inCurr + 1 + 1).toNat := by
    rw [Started] at started
    omega
  rw [Driver.unread, count, List.range'_succ, List.map_cons, List.cons.injEq, next] at unread
  refine ⟨unread.1, unread.2, more, ?_⟩
  rw [Started] at started
  change -1 ≤ d.inCurr + 1
  omega

/-- The buffer after a datagram was read holds its bytes behind the packet information. -/
theorem readTun_unread (d : Driver) (g : Datagram)
    : (d.readTun g).unread = g.received ∧ (d.readTun g).Started := by
  refine ⟨?_, by rw [Started]; change (-1 : Int) ≤ 3; decide⟩
  have kept : ((packetInfo ++ g.bytes).take inbufSize).drop 4 = g.received := by
    rw [List.drop_take]
    rfl
  rw [← kept, unread]
  have start : ((d.readTun g).inCurr + 1).toNat = 4 := rfl
  have count : ((d.readTun g).inNbytes - 1 - (d.readTun g).inCurr).toNat
      = ((packetInfo ++ g.bytes).take inbufSize).length - 4 := by
    change ((((packetInfo ++ g.bytes).take inbufSize).length : Int) - 1 - (-1 + 4)).toNat = _
    omega
  rw [start, count]
  apply List.ext_getElem
  · rw [List.length_map, List.length_range', List.length_drop]
  · intro i lt _
    rw [List.length_map, List.length_range'] at lt
    have bound : 4 + i < ((packetInfo ++ g.bytes).take inbufSize).length := by omega
    rw [List.getElem_map, List.getElem_range', List.getElem_drop, Nat.one_mul]
    change (if 4 + i < ((packetInfo ++ g.bytes).take inbufSize).length then _ else _) = _
    rw [if_pos bound, List.getD_eq_getElem?_getD, List.getElem?_eq_getElem bound, Option.getD_some]

/-- The driver behind the bytes of a datagram. -/
structure Behind (queue : List Datagram) (coming : List (Option Datagram)) (d : Driver) : Prop where
  exhausted : d.Exhausted
  started : d.Started
  queue : d.queue = queue
  coming : d.coming = coming

/-- The buffer is delivered, by induction on what is left of it. -/
theorem delivers_unread {dry : Driver → Prop} {bytes : List UInt8} (started : d.Started)
    (unread : d.unread = bytes)
    : Delivers source dry (Behind d.queue d.coming) d bytes := by
  induction bytes generalizing d with
  | nil => exact ⟨(exhausted_iff d).mpr unread, started, rfl, rfl⟩
  | cons b rest ih =>
      obtain ⟨byte, unread, more, started⟩ := advance_unread started unread
      have got : source.get d = (some b, d.advance.2) := by
        rw [← byte]
        exact if_neg more
      rw [Delivers, got]
      exact ⟨rfl, ih started unread⟩

/-- A waiting datagram is delivered, once the buffer is exhausted. -/
theorem delivers_datagram {dry : Driver → Prop} {g : Datagram} {queue : List Datagram}
    (exhausted : d.Exhausted) (waits : d.queue = g :: queue)
    : Delivers source dry (Behind queue d.coming) d g.received := by
  obtain ⟨unread, started⟩ := readTun_unread { d with queue } g
  cases received : g.received with
  | nil =>
      have nonempty := g.nonempty
      rw [Datagram.received, List.take_eq_nil_iff] at received
      rcases received with none | none
      · exact absurd none (by decide)
      · exact absurd none nonempty
  | cons b rest =>
      rw [received] at unread
      obtain ⟨byte, unread, -, started⟩ := advance_unread started unread
      have got : source.get d = (some b, ({ d with queue }.readTun g).advance.2) := by
        rw [← byte]
        change d.devGet = _
        rw [devGet, if_pos (show d.inNbytes - 1 ≤ d.inCurr from exhausted), waits]
      rw [Delivers, got]
      exact ⟨rfl, delivers_unread started unread⟩

--------------------------------------------------
-- A datagram that is alone
--------------------------------------------------

/-- Nothing waits at the device, and nothing comes. -/
structure Silent (d : Driver) : Prop where
  exhausted : d.Exhausted
  started : d.Started
  queue : d.queue = []
  coming : ∀ c ∈ d.coming, c = none

theorem silent_stays : StaysDry source Silent := by
  rintro d ⟨exhausted, started, queue, coming⟩
  change d.devGet.1 = none ∧ Silent d.devGet.2
  rw [devGet, if_pos (show d.inNbytes - 1 ≤ d.inCurr from exhausted), queue]
  cases more : d.coming with
  | nil => exact ⟨rfl, exhausted, started, queue, coming⟩
  | cons c rest =>
      rw [more] at coming
      have none := coming c List.mem_cons_self
      subst none
      exact ⟨rfl, exhausted, started, rfl, fun c mem => coming c (List.mem_cons_of_mem _ mem)⟩

/-- A datagram that is alone is delivered, and then the device has nothing. -/
theorem delivers_alone {g : Datagram} {padding : List UInt8} (exhausted : d.Exhausted)
    (waits : d.queue = [g]) (coming : ∀ c ∈ d.coming, c = none)
    : Delivers source Silent Silent d (g.received ++ padding) := by
  apply Delivers.append
  have delivered : Delivers source Silent (Behind [] d.coming) d g.received :=
    delivers_datagram exhausted waits
  refine delivered.mono fun d' behind => ?_
  have silent : Silent d' := ⟨behind.exhausted, behind.started, behind.queue, behind.coming ▸ coming⟩
  cases padding with
  | nil => exact silent
  | cons b padding =>
      obtain ⟨got, silent⟩ := silent_stays d' silent
      rw [Delivers]
      split
      case h_1 d'' more =>
        rw [more] at got
        cases got
      case h_2 d'' none =>
        rw [none] at silent
        exact silent

end Driver

end Smews.Linux
