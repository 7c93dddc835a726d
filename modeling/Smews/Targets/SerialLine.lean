import Smews.Library.CircularBuffer
import Smews.PanManager.Slip

/-! The serial line that the SLIP drivers of the targets have in common, at the other end of the one of the PAN
manager: a circular buffer between the receive interrupt and `dev_get`. A null `readPtr` tells that it is empty, a null
`writePtr` that it is full.
-/

namespace Smews.Targets

open CircularBuffer
open PanManager (SlipState slipEnd slipEsc slipEscEnd slipEscEsc)

--------------------------------------------------
-- The line
--------------------------------------------------

/-- `serial_line` and `slip_state`. Pointers are given by their distance from the beginning of the buffer. -/
structure SerialLine (inbufSize : Nat) where
  buffer : Vector UInt8 inbufSize
  writePtr : Option Nat
  readPtr : Option Nat
  slipState : SlipState

variable {inbufSize : Nat}

namespace SerialLine

/-- After `dev_init`, whatever the buffer holds. -/
def init (buffer : Vector UInt8 inbufSize) : SerialLine inbufSize :=
  { buffer, writePtr := some 0, readPtr := none, slipState := .slipIn }

/-- The `switch` of the receive interrupt: the new state, and the byte for the buffer if there is one. -/
def unslip (state : SlipState) (c : UInt8) : SlipState × Option UInt8 :=
  if c = slipEnd then (state, none)
  else if c = slipEsc then (.slipEscaped, none)
  else if c = slipEscEnd then
    if state = .slipEscaped then (.slipIn, some slipEnd) else (state, some c)
  else if c = slipEscEsc then
    if state = .slipEscaped then (.slipIn, some slipEsc) else (state, some c)
  else (state, some c)

/-- A store through a pointer, undefined outside of the buffer. -/
def store (l : SerialLine inbufSize) (ptr : Nat) (c : UInt8) : Option (SerialLine inbufSize) :=
  if inside : ptr < inbufSize then some { l with buffer := l.buffer.set ptr c inside } else none

/-- A pointer at the end of the buffer goes back to its beginning. -/
def wrap (inbufSize ptr : Nat) : Nat := if ptr = inbufSize then 0 else ptr

/-- A byte is put into the buffer, undefined when `writePtr` is null. -/
def put (l : SerialLine inbufSize) (c : UInt8) : Option (SerialLine inbufSize) := do
  let l := if l.readPtr = none then { l with readPtr := l.writePtr } else l
  let ptr ← l.writePtr
  let l ← l.store ptr c
  let l := { l with writePtr := some (wrap inbufSize (ptr + 1)) }
  some (if l.writePtr = l.readPtr then { l with writePtr := none } else l)

--------------------------------------------------
-- What the buffer holds
--------------------------------------------------

/-- The buffer holds a queue from a place on. -/
structure Queued (l : SerialLine inbufSize) (start : Nat) (held : List UInt8) : Prop where
  start_lt : start < inbufSize
  fits : held.length ≤ inbufSize
  items : Holds l.buffer start held
  readPtr : l.readPtr = if held = [] then none else some start
  writePtr : l.writePtr = if held.length = inbufSize then none else some (around inbufSize (start + held.length))

variable {l : SerialLine inbufSize} {start : Nat} {held : List UInt8} {c : UInt8}

theorem queued_init (buffer : Vector UInt8 inbufSize) (positive : 0 < inbufSize) : (init buffer).Queued 0 [] where
  start_lt := positive
  fits := Nat.zero_le _
  items := .nil _ _
  readPtr := rfl
  writePtr := by
    rw [List.length_nil, if_neg (Nat.ne_of_lt positive), Nat.add_zero, around_self positive]
    rfl

theorem Queued.congr {l' : SerialLine inbufSize} (queued : l.Queued start held) (buffer : l'.buffer = l.buffer)
    (readPtr : l'.readPtr = l.readPtr) (writePtr : l'.writePtr = l.writePtr)
    : l'.Queued start held :=
  ⟨queued.start_lt, queued.fits, buffer ▸ queued.items, readPtr ▸ queued.readPtr, writePtr ▸ queued.writePtr⟩

/-- An empty buffer is told from a full one. -/
theorem Queued.empty_iff (queued : l.Queued start held) : l.readPtr = none ↔ held = [] := by
  rw [queued.readPtr]
  split
  · exact iff_of_true rfl ‹_›
  · exact iff_of_false nofun ‹_›

theorem Queued.full_iff (queued : l.Queued start held) : l.writePtr = none ↔ held.length = inbufSize := by
  rw [queued.writePtr]
  split
  · exact iff_of_true rfl ‹_›
  · exact iff_of_false nofun ‹_›

theorem store_eq {ptr : Nat} (inside : ptr < inbufSize)
    : l.store ptr c = some { l with buffer := l.buffer.set ptr c inside } :=
  dif_pos inside

theorem put_null (full : l.writePtr = none) : l.put c = none := by
  unfold SerialLine.put
  split <;> simp [full]

/-- A byte is put behind the last one. -/
theorem Queued.put (queued : l.Queued start held) (room : held.length < inbufSize)
    : ∃ l', l.put c = some l' ∧ l'.Queued start (held ++ [c]) ∧ l'.slipState = l.slipState := by
  obtain ⟨start_lt, fits, items, readPtr, writePtr⟩ := queued
  rw [if_neg (Nat.ne_of_lt room)] at writePtr
  have inside := around_lt start_lt (Nat.le_of_lt room)
  have next : wrap inbufSize (around inbufSize (start + held.length) + 1) = around inbufSize (start + (held.length + 1)) :=
    around_succ start_lt room
  -- the first byte of the buffer is where it begins
  have read : (if l.readPtr = none then { l with readPtr := l.writePtr } else l) = { l with readPtr := some start } := by
    by_cases empty : held = []
    · rw [if_pos empty] at readPtr
      rw [if_pos readPtr, writePtr, empty, List.length_nil, Nat.add_zero, around_self start_lt]
    · rw [if_neg empty] at readPtr
      rw [if_neg (by rw [readPtr]; nofun), ← readPtr]
  unfold SerialLine.put
  rw [read]
  simp only [writePtr, Option.bind_eq_bind, Option.bind_some, store_eq inside, next, Option.some.injEq]
  refine ⟨_, rfl, ⟨start_lt, ?_, ?_, ?_, ?_⟩, ?_⟩
  · rw [List.length_append, List.length_singleton]
    omega
  · split <;> exact items.push room inside
  · rw [if_neg (List.concat_ne_nil c held)]
    split <;> rfl
  · rw [List.length_append, List.length_singleton]
    by_cases full : held.length + 1 = inbufSize
    · rw [if_pos (by rw [full, around_all]), if_pos full]
    · rw [if_neg, if_neg full]
      intro same
      have first : around inbufSize (start + (held.length + 1)) = around inbufSize (start + 0) := by
        rw [same, Nat.add_zero, around_self start_lt]
      have zero := (around_inj (by omega) (by omega)).mp first
      omega
  · split <;> rfl

end SerialLine

end Smews.Targets
