import Smews.Library.Runs
import Smews.Targets.ArduinoSlip

/-! The SLIP driver of the mbed, `slip.c`. Its interrupt does not test for a full buffer, and it may come between any
two accesses of `dev_get`. The driver agrees with the one of the Arduino as long as no byte for the buffer comes where
one of the two goes wrong.
-/

namespace Smews.Targets

open CircularBuffer Runs

variable {inbufSize : Nat}

--------------------------------------------------
-- The driver
--------------------------------------------------

/-- Where `dev_get` is: before its last test of `readPtr`, or before one of the accesses behind it. `advanced` is the
middle of `*readPtr++` when the pointer is stored before the byte is loaded, `loaded` when it is the other way.
-/
inductive Place
  | outside
  | testFull
  | reopen
  | read
  | loaded (c : UInt8)
  | advanced (ptr : Nat)
  | wrap (c : UInt8)
  | testEmpty (c : UInt8)
  | clear (c : UInt8)
deriving DecidableEq, Repr

/-- A byte arrives, or `dev_get` goes on. -/
inductive MbedEvent
  | interrupt (c : UInt8)
  | step
deriving DecidableEq, Repr

/-- The driver, with what `dev_get` returned so far, `none` standing for -1. `history` is what has happened, as the
other driver would see it: it reads with interrupts disabled, so that they come behind.
-/
structure MbedSlip (inbufSize : Nat) where
  line : SerialLine inbufSize
  place : Place
  returned : List (Option UInt8)
  history : List LineEvent

namespace MbedSlip

open SerialLine

/-- After `slip_init`, whatever the buffer holds. -/
def init (buffer : Vector UInt8 inbufSize) : MbedSlip inbufSize :=
  { line := SerialLine.init buffer, place := .outside, returned := [], history := [] }

/-- `SERIAL_INTERRUPT_HANDLER` for one byte, undefined where it uses a null pointer. -/
def interrupt (d : MbedSlip inbufSize) (c : UInt8) : Option (MbedSlip inbufSize) :=
  let history := d.history ++ [.interrupt c]
  match unslip d.line.slipState c with
  | (slipState, none) => some { d with line := { d.line with slipState }, history }
  | (slipState, some c) => (SerialLine.put { d.line with slipState } c).map fun line => { d with line, history }

/-- `dev_get` goes on. The end of `dev_get` returns the byte. -/
def goOn (loadsFirst : Bool) (d : MbedSlip inbufSize) : Option (MbedSlip inbufSize) :=
  match d.place with
  | .outside =>
      let history := d.history ++ [.get]
      if d.line.readPtr = none then some { d with history, returned := d.returned ++ [none] }
      else some { d with history, place := .testFull }
  | .testFull => some { d with place := if d.line.writePtr = none then .reopen else .read }
  | .reopen => some { d with line := { d.line with writePtr := d.line.readPtr }, place := .read }
  | .read => do
      let ptr ← d.line.readPtr
      if loadsFirst then
        let c ← d.line.buffer[ptr]?
        some { d with place := .loaded c }
      else
        some { d with line := { d.line with readPtr := some (ptr + 1) }, place := .advanced ptr }
  | .loaded c => do
      let ptr ← d.line.readPtr
      some { d with line := { d.line with readPtr := some (ptr + 1) }, place := .wrap c }
  | .advanced ptr => do
      let c ← d.line.buffer[ptr]?
      some { d with place := .wrap c }
  | .wrap c =>
      -- the interrupt does not change `readPtr` here, so that the test and the store may be one step
      let readPtr := if d.line.readPtr = some inbufSize then some 0 else d.line.readPtr
      some { d with line := { d.line with readPtr }, place := .testEmpty c }
  | .testEmpty c =>
      if d.line.readPtr = d.line.writePtr then some { d with place := .clear c }
      else some { d with place := .outside, returned := d.returned ++ [some c] }
  | .clear c =>
      some {
        d with
        line := { d.line with readPtr := none }
        place := .outside
        returned := d.returned ++ [some c]
      }

def step (loadsFirst : Bool) (d : MbedSlip inbufSize) : MbedEvent → Option (MbedSlip inbufSize)
  | .interrupt c => d.interrupt c
  | .step => d.goOn loadsFirst

--------------------------------------------------
-- Safe interrupts
--------------------------------------------------

/-- A byte may be put into the buffer. In `dev_get` this needs more than a `writePtr` that is not null: before the byte
is read the buffer must have another free place, and not become full; while `readPtr` is at the end of the buffer the
byte must not be the last one that fits; and nothing may come between the test for an empty buffer and the store that
depends on it, nor between those for a full one.
-/
def MayPut (d : MbedSlip inbufSize) : Prop :=
  match d.place with
  | .outside | .testFull | .testEmpty _ => d.line.writePtr ≠ none
  | .reopen | .clear _ => False
  | .read | .loaded _ =>
      d.line.writePtr ≠ none ∧ d.line.writePtr ≠ d.line.readPtr
        ∧ d.line.writePtr.map (fun ptr => SerialLine.wrap inbufSize (ptr + 1)) ≠ d.line.readPtr
  | .advanced ptr => d.line.writePtr ≠ some ptr
  | .wrap _ => d.line.writePtr ≠ none ∧ ¬ (d.line.readPtr = some inbufSize ∧ d.line.writePtr = some (inbufSize - 1))

/-- An interrupt does not put a byte into the buffer, or it may. -/
def Safe (d : MbedSlip inbufSize) : MbedEvent → Prop
  | .interrupt c => (unslip d.line.slipState c).2 = none ∨ d.MayPut
  | .step => True

def SafeStep (loadsFirst : Bool) (d : MbedSlip inbufSize) (event : MbedEvent) (d' : MbedSlip inbufSize) : Prop :=
  d.Safe event ∧ d.step loadsFirst event = some d'

end MbedSlip

--------------------------------------------------
-- What the buffer holds
--------------------------------------------------

variable {d d' : MbedSlip inbufSize} {l : SerialLine inbufSize} {q : LineQueue} {start : Nat}
  {items held : List UInt8} {b c : UInt8} {event : MbedEvent} {loadsFirst : Bool}

namespace SerialLine

/-- The buffer holds items from a place on, whatever the pointers are. -/
structure Spread (l : SerialLine inbufSize) (start : Nat) (items : List UInt8) : Prop where
  start_lt : start < inbufSize
  fits : items.length ≤ inbufSize
  holds : Holds l.buffer start items

theorem Queued.spread (queued : l.Queued start items) : l.Spread start items :=
  ⟨queued.start_lt, queued.fits, queued.items⟩

/-- A byte is put behind the items, when `readPtr` is not null. -/
theorem Spread.put {r : Nat} (spread : l.Spread start items) (room : items.length < inbufSize)
    (readPtr : l.readPtr = some r) (writePtr : l.writePtr = some (around inbufSize (start + items.length)))
    : ∃ l', l.put b = some l' ∧ l'.Spread start (items ++ [b]) ∧ l'.slipState = l.slipState ∧ l'.readPtr = some r
      ∧ l'.writePtr = if around inbufSize (start + (items.length + 1)) = r then none
        else some (around inbufSize (start + (items.length + 1))) := by
  obtain ⟨start_lt, fits, holds⟩ := spread
  have inside := around_lt start_lt (Nat.le_of_lt room)
  have next : SerialLine.wrap inbufSize (around inbufSize (start + items.length) + 1)
      = around inbufSize (start + (items.length + 1)) := around_succ start_lt room
  unfold SerialLine.put
  rw [if_neg (by rw [readPtr]; nofun)]
  simp only [writePtr, Option.bind_eq_bind, Option.bind_some, store_eq inside, next, readPtr, Option.some.injEq]
  refine ⟨_, rfl, ⟨start_lt, ?_, ?_⟩, ?_, ?_, ?_⟩
  · rw [List.length_append, List.length_singleton]
    omega
  · split <;> exact holds.push room inside
  · split <;> rfl
  · split <;> rfl
  · split <;> rfl

/-- The buffer holds items from `readPtr` on, and `writePtr` is behind them, also when it is full. -/
structure Opened (l : SerialLine inbufSize) (start : Nat) (items : List UInt8) : Prop extends l.Spread start items where
  readPtr : l.readPtr = some start
  writePtr : l.writePtr = some (around inbufSize (start + items.length))

/-- A byte is put into a buffer that has two free places. -/
theorem Opened.put (opened : l.Opened start items) (other : l.writePtr ≠ l.readPtr)
    (not_last : l.writePtr.map (fun ptr => SerialLine.wrap inbufSize (ptr + 1)) ≠ l.readPtr)
    : ∃ l', l.put b = some l' ∧ l'.Opened start (items ++ [b]) ∧ l'.slipState = l.slipState
      ∧ items.length < inbufSize := by
  obtain ⟨spread, readPtr, writePtr⟩ := opened
  have start_lt := spread.start_lt
  have room : items.length < inbufSize := by
    refine Nat.lt_of_le_of_ne spread.fits fun full => other ?_
    rw [writePtr, readPtr, full, around_all]
  obtain ⟨l', put, spread', state, readPtr', writePtr'⟩ := spread.put (b := b) room readPtr writePtr
  refine ⟨l', put, ⟨spread', readPtr', ?_⟩, state, room⟩
  rw [writePtr', if_neg, List.length_append, List.length_singleton]
  intro same
  refine not_last ?_
  rw [writePtr, readPtr, Option.map_some]
  exact congrArg some ((around_succ start_lt room).trans same)

/-- The `writePtr` of a buffer, which is null when it is full. -/
def BehindOrFull (l : SerialLine inbufSize) (start : Nat) (items : List UInt8) : Prop :=
  l.writePtr = if items.length = inbufSize then none else some (around inbufSize (start + items.length))

theorem BehindOrFull.room (behind : l.BehindOrFull start items) (open_ : l.writePtr ≠ none)
    : items.length ≠ inbufSize ∧ l.writePtr = some (around inbufSize (start + items.length)) := by
  by_cases full : items.length = inbufSize
  · exact absurd (behind.trans (if_pos full)) open_
  · exact ⟨full, behind.trans (if_neg full)⟩

/-- A pointer behind a place is at the next one, or at the end of the buffer. -/
theorem around_succ_cases (start_lt : start < inbufSize)
    : start + 1 = around inbufSize (start + 1) ∨ (start + 1 = inbufSize ∧ around inbufSize (start + 1) = 0) := by
  unfold around
  split <;> omega

/-- What is left when the first byte is taken. -/
theorem Spread.tail (spread : l.Spread start (c :: items))
    : l.Spread (around inbufSize (start + 1)) items := by
  obtain ⟨start_lt, fits, holds⟩ := spread
  rw [List.length_cons] at fits
  exact ⟨around_lt start_lt (by omega), by omega, holds.tail start_lt (by omega)⟩

theorem Spread.behind_tail (spread : l.Spread start (c :: items))
    (writePtr : l.writePtr = some (around inbufSize (start + (items.length + 1))))
    : l.BehindOrFull (around inbufSize (start + 1)) items := by
  obtain ⟨start_lt, fits, -⟩ := spread
  rw [List.length_cons] at fits
  rw [BehindOrFull, if_neg (by omega), writePtr, around_tail start_lt (by omega)]

end SerialLine

--------------------------------------------------
-- The driver and the queue
--------------------------------------------------

namespace MbedSlip

open SerialLine

/-- What the buffer holds at a place of `dev_get`, with what the driver and what the queue has returned. The queue
returns a byte when `dev_get` begins to take it.
-/
inductive Position (l : SerialLine inbufSize) (returned all : List (Option UInt8)) (held : List UInt8) : Place → Prop
  | outside (start : Nat) (same : all = returned) (queued : l.Queued start held) : Position l returned all held .outside
  | testFull (start : Nat) (x : UInt8) (more : all = returned ++ [some x]) (queued : l.Queued start (x :: held))
    : Position l returned all held .testFull
  | reopen (start : Nat) (x : UInt8) (more : all = returned ++ [some x]) (queued : l.Queued start (x :: held))
    (full : held.length + 1 = inbufSize)
    : Position l returned all held .reopen
  | read (start : Nat) (x : UInt8) (more : all = returned ++ [some x]) (opened : l.Opened start (x :: held))
    : Position l returned all held .read
  | loaded (start : Nat) (x : UInt8) (more : all = returned ++ [some x]) (opened : l.Opened start (x :: held))
    : Position l returned all held (.loaded x)
  | advanced (start : Nat) (x : UInt8) (more : all = returned ++ [some x]) (spread : l.Spread start (x :: held))
    (readPtr : l.readPtr = some (start + 1))
    (writePtr : l.writePtr = some (around inbufSize (start + (held.length + 1))))
    : Position l returned all held (.advanced start)
  | wrap (start r : Nat) (x : UInt8) (more : all = returned ++ [some x]) (spread : l.Spread start held)
    (readPtr : l.readPtr = some r) (wraps : r = start ∨ (r = inbufSize ∧ start = 0))
    (behind : l.BehindOrFull start held)
    : Position l returned all held (.wrap x)
  | testEmpty (start : Nat) (x : UInt8) (more : all = returned ++ [some x]) (spread : l.Spread start held)
    (readPtr : l.readPtr = some start) (behind : l.BehindOrFull start held)
    : Position l returned all held (.testEmpty x)
  | clear (start : Nat) (x : UInt8) (more : all = returned ++ [some x]) (start_lt : start < inbufSize)
    (empty : held = []) (writePtr : l.writePtr = some start)
    : Position l returned all held (.clear x)

variable {returned all : List (Option UInt8)} {place : Place} {history : List LineEvent}

theorem Position.congr {l' : SerialLine inbufSize} (position : Position l returned all held place)
    (buffer : l'.buffer = l.buffer) (writePtr : l'.writePtr = l.writePtr) (readPtr : l'.readPtr = l.readPtr)
    : Position l' returned all held place := by
  have spread {start : Nat} {items : List UInt8} (spread : l.Spread start items) : l'.Spread start items :=
    ⟨spread.start_lt, spread.fits, buffer ▸ spread.holds⟩
  have opened {start : Nat} {items : List UInt8} (opened : l.Opened start items) : l'.Opened start items :=
    ⟨spread opened.toSpread, readPtr.trans opened.readPtr, writePtr.trans opened.writePtr⟩
  cases position with
  | outside start same queued => exact .outside start same (queued.congr buffer readPtr writePtr)
  | testFull start x more queued => exact .testFull start x more (queued.congr buffer readPtr writePtr)
  | reopen start x more queued full => exact .reopen start x more (queued.congr buffer readPtr writePtr) full
  | read start x more opened' => exact .read start x more (opened opened')
  | loaded start x more opened' => exact .loaded start x more (opened opened')
  | advanced start x more spread' read write =>
      exact .advanced start x more (spread spread') (readPtr.trans read) (writePtr.trans write)
  | wrap start r x more spread' read wraps behind =>
      exact .wrap start r x more (spread spread') (readPtr.trans read) wraps (writePtr.trans behind)
  | testEmpty start x more spread' read behind =>
      exact .testEmpty start x more (spread spread') (readPtr.trans read) (writePtr.trans behind)
  | clear start x more start_lt empty write => exact .clear start x more start_lt empty (writePtr.trans write)

/-- A byte that is put where it may be comes behind those that are held. -/
theorem Position.put (b : UInt8) (position : Position l returned all held place) (may : MayPut ⟨l, place, returned, history⟩)
    : ∃ l', l.put b = some l' ∧ Position l' returned all (held ++ [b]) place ∧ l'.slipState = l.slipState
      ∧ held.length ≠ inbufSize := by
  cases position with
  | outside start same queued =>
      have room := mt queued.full_iff.mpr may
      obtain ⟨l', put, queued', state⟩ := queued.put (c := b) (Nat.lt_of_le_of_ne queued.fits room)
      exact ⟨l', put, .outside start same queued', state, room⟩
  | testFull start x more queued =>
      have room := mt queued.full_iff.mpr may
      have fits := queued.fits
      rw [List.length_cons] at room fits
      obtain ⟨l', put, queued', state⟩ := queued.put (c := b) (by rw [List.length_cons]; omega)
      exact ⟨l', put, .testFull start x more queued', state, by omega⟩
  | reopen => exact may.elim
  | clear => exact may.elim
  | read start x more opened =>
      obtain ⟨-, other, not_last⟩ := may
      obtain ⟨l', put, opened', state, room⟩ := opened.put (b := b) other not_last
      exact ⟨l', put, .read start x more opened', state, by rw [List.length_cons] at room; omega⟩
  | loaded start x more opened =>
      obtain ⟨-, other, not_last⟩ := may
      obtain ⟨l', put, opened', state, room⟩ := opened.put (b := b) other not_last
      exact ⟨l', put, .loaded start x more opened', state, by rw [List.length_cons] at room; omega⟩
  | advanced start x more spread read write =>
      have start_lt := spread.start_lt
      have fits := spread.fits
      rw [List.length_cons] at fits
      have room : held.length + 1 < inbufSize := by
        refine Nat.lt_of_le_of_ne fits fun full => may ?_
        rw [write, full, around_all]
      obtain ⟨l', put, spread', state, read', write'⟩ := spread.put (b := b) room read write
      refine ⟨l', put, .advanced start x more spread' read' ?_, state, by omega⟩
      rw [write', if_neg, List.length_append, List.length_singleton]
      · rfl
      · -- the place that `readPtr` was moved from is free
        rw [List.length_cons]
        unfold around
        split <;> omega
  | wrap start r x more spread read wraps behind =>
      obtain ⟨open_, not_last⟩ := may
      obtain ⟨room, write⟩ := behind.room open_
      have start_lt := spread.start_lt
      have room' := Nat.lt_of_le_of_ne spread.fits room
      obtain ⟨l', put, spread', state, read', write'⟩ := spread.put (b := b) room' read write
      refine ⟨l', put, .wrap start r x more spread' read' wraps ?_, state, room⟩
      rw [BehindOrFull, write', List.length_append, List.length_singleton]
      rcases wraps with rfl | ⟨rfl, rfl⟩
      · simp only [around_back_iff (Nat.succ_pos _)]
      · -- at the end of the buffer no place is the one of `readPtr`
        rw [if_neg (Nat.ne_of_lt (around_lt start_lt room')), if_neg]
        intro full
        refine not_last ⟨read, ?_⟩
        rw [write, Nat.zero_add, around, if_pos room']
        exact congrArg some (by omega)
  | testEmpty start x more spread read behind =>
      obtain ⟨room, write⟩ := behind.room may
      have room' := Nat.lt_of_le_of_ne spread.fits room
      obtain ⟨l', put, spread', state, read', write'⟩ := spread.put (b := b) room' read write
      refine ⟨l', put, .testEmpty start x more spread' read' ?_, state, room⟩
      rw [BehindOrFull, write', List.length_append, List.length_singleton]
      simp only [around_back_iff (Nat.succ_pos _)]

/-- The driver is where the queue is: nothing was dropped by the queue. -/
structure Agrees (d : MbedSlip inbufSize) (q : LineQueue) : Prop where
  slipState : d.line.slipState = q.slipState
  kept : ∀ b ∈ q.decoded, b.2 = false
  position : Position d.line d.returned q.returned q.held d.place

theorem Agrees.interrupt (agrees : d.Agrees q) (safe : d.Safe (.interrupt c))
    : ∃ d', d.interrupt c = some d' ∧ d'.Agrees (q.step inbufSize (.interrupt c))
      ∧ d'.history = d.history ++ [.interrupt c] := by
  obtain ⟨slipState, kept, position⟩ := agrees
  have safe : (unslip d.line.slipState c).2 = none ∨ d.MayPut := safe
  unfold MbedSlip.interrupt LineQueue.step
  rw [slipState] at safe ⊢
  dsimp only
  cases decoded : unslip q.slipState c with
  | mk state byte =>
  rw [decoded] at safe
  cases byte with
  | none => exact ⟨_, rfl, ⟨rfl, kept, position.congr rfl rfl rfl⟩, rfl⟩
  | some b =>
      have may : MayPut ⟨{ d.line with slipState := state }, d.place, d.returned, d.history⟩ :=
        safe.resolve_left (by nofun)
      have same : Position { d.line with slipState := state } d.returned q.returned q.held d.place :=
        position.congr rfl rfl rfl
      obtain ⟨l', put, position', state', room⟩ := same.put b may
      dsimp only
      rw [put, offer, if_neg room]
      refine ⟨_, rfl, ⟨state', fun byte mem => ?_, position'⟩, rfl⟩
      rcases List.mem_append.mp mem with mem | mem
      · exact kept byte mem
      · rw [List.mem_singleton.mp mem]
        exact decide_eq_false room

/-- The call of `dev_get`: it returns -1, or it begins to take the first byte. -/
theorem Agrees.call (loadsFirst : Bool) (agrees : d.Agrees q) (outside : d.place = .outside)
    : ∃ d', d.goOn loadsFirst = some d' ∧ d'.Agrees (q.step inbufSize .get) ∧ d'.history = d.history ++ [.get] := by
  obtain ⟨line, place, returned, history⟩ := d
  obtain ⟨slipState, kept, position⟩ := agrees
  dsimp only at slipState position outside
  subst outside
  cases position with
  | outside start same queued =>
  simp only [MbedSlip.goOn, LineQueue.step]
  cases held : q.held with
  | nil =>
      rw [if_pos (queued.empty_iff.mpr held)]
      rw [held] at queued
      exact ⟨_, rfl, ⟨slipState, kept, .outside start (by rw [same]) queued⟩, rfl⟩
  | cons x held' =>
      rw [if_neg (mt queued.empty_iff.mp (by rw [held]; exact List.cons_ne_nil x held'))]
      rw [held] at queued
      exact ⟨_, rfl, ⟨slipState, kept, .testFull start x (by rw [same]) queued⟩, rfl⟩

/-- What `dev_get` does then, one case for each of its places. -/
theorem Agrees.goOn (loadsFirst : Bool) (agrees : d.Agrees q) (inside : d.place ≠ .outside)
    : ∃ d', d.goOn loadsFirst = some d' ∧ d'.Agrees q ∧ d'.history = d.history := by
  obtain ⟨line, place, returned, history⟩ := d
  obtain ⟨slipState, kept, position⟩ := agrees
  dsimp only at slipState position inside
  cases position with
  | outside => exact absurd rfl inside
  | testFull start x more queued =>
      refine ⟨_, rfl, ⟨slipState, kept, ?_⟩, rfl⟩
      have full := queued.full_iff
      dsimp only
      by_cases null : line.writePtr = none
      · rw [if_pos null]
        exact .reopen start x more queued (full.mp null)
      · rw [if_neg null]
        refine .read start x more ⟨queued.spread, ?_, ?_⟩
        · rw [queued.readPtr, if_neg (List.cons_ne_nil x q.held)]
        · rw [queued.writePtr, if_neg (mt full.mpr null)]
  | reopen start x more queued full =>
      have read : line.readPtr = some start := by rw [queued.readPtr, if_neg (List.cons_ne_nil x q.held)]
      refine ⟨_, rfl, ⟨slipState, kept, .read start x more ⟨⟨queued.start_lt, queued.fits, queued.items⟩, read, ?_⟩⟩, rfl⟩
      dsimp only
      rw [read, List.length_cons, full, around_all]
  | read start x more opened =>
      obtain ⟨spread, read, write⟩ := opened
      cases loadsFirst with
      | true =>
          simp only [MbedSlip.goOn, read, spread.holds.head spread.start_lt, if_true, Option.bind_eq_bind,
            Option.bind_some]
          exact ⟨_, rfl, ⟨slipState, kept, .loaded start x more ⟨spread, read, write⟩⟩, rfl⟩
      | false =>
          simp only [MbedSlip.goOn, read, Bool.false_eq_true, if_false, Option.bind_eq_bind, Option.bind_some]
          refine ⟨_, rfl, ⟨slipState, kept, .advanced start x more ?_ rfl write⟩, rfl⟩
          exact ⟨spread.start_lt, spread.fits, spread.holds⟩
  | loaded start x more opened =>
      obtain ⟨spread, read, write⟩ := opened
      simp only [MbedSlip.goOn, read, Option.bind_eq_bind, Option.bind_some]
      refine ⟨_, rfl, ⟨slipState, kept, .wrap (around inbufSize (start + 1)) (start + 1) x more ?_ rfl ?_ ?_⟩, rfl⟩
      · have tail := spread.tail
        exact ⟨tail.start_lt, tail.fits, tail.holds⟩
      · exact around_succ_cases spread.start_lt
      · exact spread.behind_tail write
  | advanced start x more spread read write =>
      simp only [MbedSlip.goOn, spread.holds.head spread.start_lt, Option.bind_eq_bind, Option.bind_some]
      refine ⟨_, rfl, ⟨slipState, kept, .wrap (around inbufSize (start + 1)) (start + 1) x more ?_ read ?_ ?_⟩, rfl⟩
      · exact spread.tail
      · exact around_succ_cases spread.start_lt
      · exact spread.behind_tail write
  | wrap start r x more spread read wraps behind =>
      simp only [MbedSlip.goOn]
      refine ⟨_, rfl, ⟨slipState, kept, .testEmpty start x more ⟨spread.start_lt, spread.fits, spread.holds⟩ ?_ behind⟩,
        rfl⟩
      dsimp only
      rw [read]
      rcases wraps with rfl | ⟨rfl, rfl⟩
      · rw [if_neg fun eq => Nat.ne_of_lt spread.start_lt (Option.some.inj eq)]
      · rw [if_pos rfl]
  | testEmpty start x more spread read behind =>
      simp only [MbedSlip.goOn]
      by_cases empty : q.held = []
      · have write : line.writePtr = some start := by
          rw [behind, empty, List.length_nil, if_neg (Nat.ne_of_lt (Nat.zero_lt_of_lt spread.start_lt)), Nat.add_zero,
            around_self spread.start_lt]
        rw [if_pos (read.trans write.symm)]
        exact ⟨_, rfl, ⟨slipState, kept, .clear start x more spread.start_lt empty write⟩, rfl⟩
      · have other : line.readPtr ≠ line.writePtr := by
          rw [read, behind]
          split
          · nofun
          · rename_i room
            intro same
            have positive : 0 < q.held.length := List.length_pos_iff.mpr empty
            exact room ((around_back_iff positive).mp (Option.some.inj same).symm)
        rw [if_neg other]
        refine ⟨_, rfl, ⟨slipState, kept, .outside start more ⟨spread.start_lt, spread.fits, spread.holds, ?_, behind⟩⟩,
          rfl⟩
        rw [if_neg empty]
        exact read
  | clear start x more start_lt empty write =>
      simp only [MbedSlip.goOn]
      refine ⟨_, rfl, ⟨slipState, kept, .outside start more ?_⟩, rfl⟩
      rw [empty]
      refine ⟨start_lt, Nat.zero_le _, .nil _ _, rfl, ?_⟩
      rw [List.length_nil, if_neg (Nat.ne_of_lt (Nat.zero_lt_of_lt start_lt)), Nat.add_zero, around_self start_lt]
      exact write

/-- One safe step. -/
theorem Agrees.step (loadsFirst : Bool) (agrees : d.Agrees (LineQueue.run inbufSize d.history)) (safe : d.Safe event)
    : ∃ d', d.step loadsFirst event = some d' ∧ d'.Agrees (LineQueue.run inbufSize d'.history) := by
  have ran (event : LineEvent) : LineQueue.run inbufSize (d.history ++ [event])
      = (LineQueue.run inbufSize d.history).step inbufSize event :=
    List.foldl_concat _ _ _ _
  cases event with
  | interrupt c =>
      obtain ⟨d', next, agrees', past⟩ := agrees.interrupt safe
      exact ⟨d', next, by rw [past, ran]; exact agrees'⟩
  | step =>
      by_cases outside : d.place = .outside
      · obtain ⟨d', next, agrees', past⟩ := agrees.call loadsFirst outside
        exact ⟨d', next, by rw [past, ran]; exact agrees'⟩
      · obtain ⟨d', next, agrees', past⟩ := agrees.goOn loadsFirst outside
        exact ⟨d', next, by rw [past]; exact agrees'⟩

/-- The driver agrees with the queue in every run of safe steps, by induction on the run. -/
theorem agrees_run {buffer : Vector UInt8 inbufSize} {events : List MbedEvent} (positive : 0 < inbufSize)
    (run : Run (SafeStep loadsFirst) (init buffer) events d)
    : d.Agrees (LineQueue.run inbufSize d.history) := by
  refine run.invariant (fun d => d.Agrees (LineQueue.run inbufSize d.history)) (fun agrees step => ?_)
    ⟨rfl, nofun, .outside 0 rfl (queued_init buffer positive)⟩
  obtain ⟨_, next, agrees'⟩ := agrees.step loadsFirst step.1
  cases step.2.symm.trans next
  exact agrees'

/-- Outside of `dev_get` an interrupt uses a null pointer unless it is safe. -/
theorem interrupt_isSome_iff (agrees : d.Agrees q) (outside : d.place = .outside)
    : (d.interrupt c).isSome ↔ d.Safe (.interrupt c) := by
  constructor
  · intro defined
    unfold MbedSlip.interrupt at defined
    unfold Safe MayPut
    rw [outside]
    dsimp only at defined ⊢
    split at defined
    · rename_i eq
      exact .inl (by rw [eq])
    · rename_i state b _
      refine .inr fun null => ?_
      rw [put_null (l := { d.line with slipState := state }) null] at defined
      cases defined
  · intro safe
    obtain ⟨d', next, -⟩ := agrees.interrupt safe
    rw [next]
    rfl

/-- In every run of safe steps the driver uses no null pointer in the next safe step, the driver of the Arduino has
dropped no byte, and both have returned the same bytes. Outside of `dev_get` only a safe interrupt uses none.
-/
theorem mbed_slip_agrees (loadsFirst : Bool) (buffer : Vector UInt8 inbufSize) (size : 2 ≤ inbufSize)
    (events : List MbedEvent) (run : Run (SafeStep loadsFirst) (init buffer) events d)
    : (∀ event, d.Safe event → (d.step loadsFirst event).isSome)
      ∧ (d.place = .outside → ∀ c, (d.step loadsFirst (.interrupt c)).isSome ↔ d.Safe (.interrupt c))
      ∧ (∀ b ∈ (LineQueue.run inbufSize d.history).decoded, b.2 = false)
      ∧ ∃ a, ArduinoSlip.run buffer d.history = some a ∧ a.Follows (LineQueue.run inbufSize d.history)
        ∧ (d.place = .outside → d.returned = a.returned
          ∧ (d.line.readPtr = none ↔ a.line.readPtr = none) ∧ (d.line.writePtr = none ↔ a.line.writePtr = none)) := by
  have agrees := agrees_run (by omega) run
  obtain ⟨a, ran, follows⟩ := ArduinoSlip.follows_run buffer (by omega) d.history
  refine ⟨fun event safe => ?_, fun outside c => interrupt_isSome_iff agrees outside, agrees.kept, a, ran, follows,
    fun outside => ?_⟩
  · obtain ⟨d', next, -⟩ := agrees.step loadsFirst safe
    rw [next]
    rfl
  · obtain ⟨_, other⟩ := follows.queued
    have position := agrees.position
    rw [outside] at position
    cases position with
    | outside start same queued =>
        exact ⟨same.symm.trans follows.returned.symm, queued.empty_iff.trans other.empty_iff.symm,
          queued.full_iff.trans other.full_iff.symm⟩

--------------------------------------------------
-- Small buffers
--------------------------------------------------

instance (d : MbedSlip inbufSize) : Decidable d.MayPut := by
  unfold MayPut
  split <;> infer_instance

instance (d : MbedSlip inbufSize) (event : MbedEvent) : Decidable (d.Safe event) :=
  match event with
  | .interrupt _ => inferInstanceAs (Decidable (_ ∨ _))
  | .step => inferInstanceAs (Decidable True)

/-- An escaped byte arrives in two parts while another one is taken. -/
theorem mbed_slip_agrees_three
    : ∃ d : MbedSlip 3, d.returned = [some 0x41, some 0xc0, none] ∧ d.place = .outside
      ∧ ∃ a, ArduinoSlip.run (Vector.replicate 3 0) d.history = some a ∧ d.returned = a.returned := by
  have checked : (runChecked (MbedSlip.step true) MbedSlip.Safe
      [.interrupt 0x41, .step, .interrupt 0xdb, .step, .interrupt 0xdc, .step, .step, .step, .step, .step, .step, .step,
        .step, .step, .step, .step, .step]
      (MbedSlip.init (Vector.replicate 3 0))).map (fun d => (d.returned, d.place))
      = some ([some 0x41, some 0xc0, none], .outside) := by
    decide +kernel
  simp only [Option.map_eq_some_iff, Prod.mk.injEq] at checked
  obtain ⟨d, run, returned, outside⟩ := checked
  have run : Run (SafeStep true) (init (Vector.replicate 3 0)) _ d :=
    (Run.of_checked run).mono And.symm
  obtain ⟨-, -, -, a, ran, -, same⟩ := mbed_slip_agrees true (Vector.replicate 3 0) (by decide) _ run
  exact ⟨d, returned, outside, a, ran, (same outside).1⟩

/-- A buffer of two bytes: the third byte is stored through a null pointer, where the other driver drops it. -/
theorem mbed_slip_null_two
    : ∃ d : MbedSlip 2,
        Run (fun d event d' => d.step true event = some d') (init (Vector.replicate 2 0)) [.interrupt 0x41, .interrupt 0x42] d
        ∧ d.line.writePtr = none ∧ d.step true (.interrupt 0x43) = none
        ∧ (ArduinoSlip.run (Vector.replicate 2 0) (d.history ++ [.interrupt 0x43])).isSome := by
  have checked : (runChecked (MbedSlip.step true) (fun _ _ => True) [.interrupt 0x41, .interrupt 0x42]
      (MbedSlip.init (Vector.replicate 2 0))).map (fun d => (d.line.writePtr, (d.step true (.interrupt 0x43)).isSome,
        (ArduinoSlip.run (Vector.replicate 2 0) (d.history ++ [.interrupt 0x43])).isSome))
      = some (none, false, true) := by
    decide +kernel
  simp only [Option.map_eq_some_iff, Prod.mk.injEq] at checked
  obtain ⟨d, run, full, null, dropped⟩ := checked
  exact ⟨d, (Run.of_checked run).mono And.left, full, by simpa using null, dropped⟩

/-- A byte that arrives between the test for an empty buffer and the store that depends on it is lost. -/
example : (runChecked (MbedSlip.step true) (fun _ _ => True)
    [.interrupt 0x41, .step, .step, .step, .step, .step, .step, .interrupt 0x42, .step, .step]
    (MbedSlip.init (Vector.replicate 2 0))).map (·.returned) = some [some 0x41, none] := by
  decide +kernel

end MbedSlip

end Smews.Targets
