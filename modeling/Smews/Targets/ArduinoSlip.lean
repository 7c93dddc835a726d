import Mathlib.Data.List.ReduceOption
import Smews.Targets.SerialLine

/-! The SLIP driver of the Arduino, `serial_line.c`. Its buffer is a queue of the bytes that the interrupt decodes; a
byte that finds the queue full is missing, and no other.
-/

namespace Smews.Targets

open CircularBuffer
open PanManager (SlipState slipEnd slipEsc slipEscEnd slipEscEsc)

variable {inbufSize : Nat}

--------------------------------------------------
-- The driver
--------------------------------------------------

/-- What happens to a driver: a byte arrives, or the wait of `dev_get` ends. Bytes that arrive while `dev_get` waits
come before its end.
-/
inductive LineEvent
  | interrupt (c : UInt8)
  | get
deriving DecidableEq, Repr

/-- What is written for a byte by `dev_put`. -/
def devPut (byte : UInt8) : List UInt8 :=
  if byte = slipEnd then [slipEsc, slipEscEnd]
  else if byte = slipEsc then [slipEsc, slipEscEsc]
  else [byte]

/-- The driver, with what `dev_get` returned so far, `none` standing for -1. -/
structure ArduinoSlip (inbufSize : Nat) where
  line : SerialLine inbufSize
  returned : List (Option UInt8)

namespace ArduinoSlip

open SerialLine

/-- `ISR(USART_RX_vect)`. -/
def isr (d : ArduinoSlip inbufSize) (c : UInt8) : Option (ArduinoSlip inbufSize) :=
  match unslip d.line.slipState c with
  | (slipState, none) => some { d with line := { d.line with slipState } }
  | (slipState, some c) =>
      let line := { d.line with slipState }
      if line.writePtr ≠ none then (line.put c).map fun line => { d with line }
      else some { d with line }

/-- `read_byte_from_buffer`, which no interrupt interrupts. -/
def readByteFromBuffer (l : SerialLine inbufSize) : Option (UInt8 × SerialLine inbufSize) := do
  let l := if l.writePtr = none then { l with writePtr := l.readPtr } else l
  let ptr ← l.readPtr
  let c ← l.buffer[ptr]?
  let l := { l with readPtr := some (wrap inbufSize (ptr + 1)) }
  some (c, if l.readPtr = l.writePtr then { l with readPtr := none } else l)

/-- The end of `dev_get`. -/
def devGet (d : ArduinoSlip inbufSize) : Option (ArduinoSlip inbufSize) :=
  if d.line.readPtr = none then
    some { d with returned := d.returned ++ [none] }
  else
    (readByteFromBuffer d.line).map fun (c, line) => { line, returned := d.returned ++ [some c] }

def step (d : ArduinoSlip inbufSize) : LineEvent → Option (ArduinoSlip inbufSize)
  | .interrupt c => d.isr c
  | .get => d.devGet

/-- The driver after `dev_init` and some events. -/
def run (buffer : Vector UInt8 inbufSize) (events : List LineEvent) : Option (ArduinoSlip inbufSize) :=
  events.foldlM step { line := init buffer, returned := [] }

end ArduinoSlip

--------------------------------------------------
-- What the driver is for
--------------------------------------------------

/-- A bounded queue of decoded bytes, with all that were decoded so far and whether each found the queue full. -/
structure LineQueue where
  slipState : SlipState
  held : List UInt8
  decoded : List (UInt8 × Bool)
  returned : List (Option UInt8)

namespace LineQueue

def init : LineQueue := { slipState := .slipIn, held := [], decoded := [], returned := [] }

def step (inbufSize : Nat) (q : LineQueue) : LineEvent → LineQueue
  | .interrupt c =>
      match SerialLine.unslip q.slipState c with
      | (slipState, none) => { q with slipState }
      | (slipState, some c) =>
          {
            q with
            slipState
            held := offer inbufSize q.held c
            decoded := q.decoded ++ [(c, decide (q.held.length = inbufSize))]
          }
  | .get =>
      match q.held with
      | [] => { q with returned := q.returned ++ [none] }
      | c :: held => { q with held, returned := q.returned ++ [some c] }

def run (inbufSize : Nat) (events : List LineEvent) : LineQueue := events.foldl (step inbufSize) init

/-- The bytes that did not find the queue full. -/
def kept (q : LineQueue) : List UInt8 := (q.decoded.filter fun b => !b.2).map Prod.fst

/-- What was returned and what is held are the bytes that were kept, in order. -/
theorem returned_held (inbufSize : Nat) (events : List LineEvent)
    : (run inbufSize events).returned.reduceOption ++ (run inbufSize events).held = (run inbufSize events).kept := by
  have steps {q : LineQueue} (before : q.returned.reduceOption ++ q.held = q.kept) (event : LineEvent)
      : (q.step inbufSize event).returned.reduceOption ++ (q.step inbufSize event).held
        = (q.step inbufSize event).kept := by
    cases event with
    | interrupt c =>
        unfold step
        dsimp only
        split
        · exact before
        · rename_i slipState b _
          unfold kept at before
          by_cases full : q.held.length = inbufSize
          · simp [kept, offer, full, before]
          · simp [kept, offer, full, ← before]
    | get =>
        unfold step
        dsimp only
        split
        · rename_i empty
          refine Eq.trans ?_ before
          simp [List.reduceOption]
        · rename_i c held eq
          refine Eq.trans ?_ before
          simp [eq, List.reduceOption]
  have all {q : LineQueue} (before : q.returned.reduceOption ++ q.held = q.kept) (events : List LineEvent)
      : (events.foldl (step inbufSize) q).returned.reduceOption ++ (events.foldl (step inbufSize) q).held
        = (events.foldl (step inbufSize) q).kept := by
    induction events generalizing q with
    | nil => exact before
    | cons event events ih => exact ih (steps before event)
  exact all rfl events

end LineQueue

--------------------------------------------------
-- Decoding
--------------------------------------------------

/-- The bytes of the line that the interrupt receives. -/
def lineBytes (events : List LineEvent) : List UInt8 :=
  events.filterMap fun
    | .interrupt c => some c
    | .get => none

/-- The bytes that the interrupt decodes. -/
def decoded : SlipState → List UInt8 → List UInt8
  | _, [] => []
  | state, c :: bytes => (SerialLine.unslip state c).2.toList ++ decoded (SerialLine.unslip state c).1 bytes

section Decoding

variable {state : SlipState} {bytes packet : List UInt8} {c : UInt8}

/-- Delimiters between the bytes change nothing, by induction on the bytes. -/
theorem decoded_filter (state : SlipState) (bytes : List UInt8)
    : decoded state (bytes.filter (· ≠ slipEnd)) = decoded state bytes := by
  induction bytes generalizing state with
  | nil => rfl
  | cons c bytes ih =>
      by_cases isEnd : c = slipEnd
      · subst isEnd
        rw [List.filter_cons_of_neg (by simp), decoded]
        exact ih state
      · rw [List.filter_cons_of_pos (by simpa using isEnd), decoded, decoded, ih]

/-- What `dev_put` writes for a byte is decoded to it. -/
theorem decoded_devPut (c : UInt8) (rest : List UInt8)
    : decoded .slipIn (devPut c ++ rest) = c :: decoded .slipIn rest := by
  by_cases isEnd : c = slipEnd
  · subst isEnd
    rfl
  · by_cases isEsc : c = slipEsc
    · subst isEsc
      rfl
    · have plain : SerialLine.unslip .slipIn c = (.slipIn, some c) := by
        unfold SerialLine.unslip
        rw [if_neg isEnd, if_neg isEsc]
        split
        · rfl
        · split <;> rfl
      rw [devPut, if_neg isEnd, if_neg isEsc, List.singleton_append, decoded, plain]
      rfl

theorem decoded_flatMap (packet : List UInt8) : decoded .slipIn (packet.flatMap devPut) = packet := by
  induction packet with
  | nil => rfl
  | cons c packet ih => rw [List.flatMap_cons, decoded_devPut, ih]

/-- More bytes leave what was decoded before, by induction on the bytes before. -/
theorem decoded_append (state : SlipState) (bytes rest : List UInt8)
    : decoded state bytes <+: decoded state (bytes ++ rest) := by
  induction bytes generalizing state with
  | nil => exact List.nil_prefix
  | cons c bytes ih =>
      rw [List.cons_append, decoded, decoded, List.prefix_append_right_inj]
      exact ih _

/-- The first bytes of an encoded sequence are decoded to the first bytes of the sequence. -/
theorem decoded_prefix (received : bytes <+: packet.flatMap devPut) : decoded .slipIn bytes <+: packet := by
  obtain ⟨rest, eq⟩ := received
  have all := decoded_append .slipIn bytes rest
  rwa [eq, decoded_flatMap] at all

/-- What the queue decoded, by induction on the events. -/
theorem LineQueue.decoded_run (inbufSize : Nat) (events : List LineEvent)
    : (LineQueue.run inbufSize events).decoded.map Prod.fst = Targets.decoded .slipIn (lineBytes events) := by
  have all (q : LineQueue)
      : (events.foldl (step inbufSize) q).decoded.map Prod.fst
        = q.decoded.map Prod.fst ++ Targets.decoded q.slipState (lineBytes events) := by
    induction events generalizing q with
    | nil => simp [lineBytes, Targets.decoded]
    | cons event events ih =>
        rw [List.foldl_cons, ih]
        cases event with
        | interrupt c =>
            have bytes : lineBytes (.interrupt c :: events) = c :: lineBytes events := rfl
            rw [bytes, Targets.decoded, step]
            split
            · rename_i eq
              rw [eq]
              rfl
            · rename_i eq
              rw [eq]
              simp
        | get =>
            have bytes : lineBytes (.get :: events) = lineBytes events := rfl
            rw [bytes, step]
            split <;> rfl
  exact all init

end Decoding

--------------------------------------------------
-- The driver is a queue
--------------------------------------------------

variable {d : ArduinoSlip inbufSize} {l : SerialLine inbufSize} {q : LineQueue} {start : Nat} {held : List UInt8}
  {c : UInt8}

namespace SerialLine

/-- The first byte is taken. -/
theorem Queued.read (queued : l.Queued start (c :: held))
    : ∃ l', ArduinoSlip.readByteFromBuffer l = some (c, l') ∧ l'.Queued (around inbufSize (start + 1)) held
      ∧ l'.slipState = l.slipState := by
  obtain ⟨start_lt, fits, items, readPtr, writePtr⟩ := queued
  rw [if_neg (List.cons_ne_nil c held)] at readPtr
  rw [List.length_cons] at fits writePtr
  have next : wrap inbufSize (start + 1) = around inbufSize (start + 1) := by
    unfold wrap around
    split <;> split <;> omega
  -- a full buffer is opened again where it begins
  have opened : (if l.writePtr = none then { l with writePtr := l.readPtr } else l)
      = { l with writePtr := some (around inbufSize (start + (held.length + 1))) } := by
    by_cases full : held.length + 1 = inbufSize
    · rw [if_pos full] at writePtr
      rw [if_pos writePtr, readPtr, full, around_all]
    · rw [if_neg full] at writePtr
      rw [if_neg (by rw [writePtr]; nofun), ← writePtr]
  unfold ArduinoSlip.readByteFromBuffer
  rw [opened]
  simp only [readPtr, Option.bind_eq_bind, Option.bind_some, items.head start_lt, next, Option.some.injEq]
  have tail := items.tail start_lt (by omega)
  have inside : around inbufSize (start + 1) < inbufSize := around_lt start_lt (by omega)
  have last : around inbufSize (start + (held.length + 1)) = around inbufSize (around inbufSize (start + 1) + held.length) :=
    (around_tail start_lt (by omega)).symm
  by_cases empty : held = []
  · -- the last byte was taken
    subst empty
    rw [if_pos (show around inbufSize (start + 1) = around inbufSize (start + (([] : List UInt8).length + 1)) from rfl)]
    refine ⟨_, rfl, ⟨inside, by omega, tail, rfl, ?_⟩, rfl⟩
    rw [List.length_nil, if_neg (by omega)]
    exact congrArg some (around_self inside).symm
  · rw [if_neg]
    · refine ⟨_, rfl, ⟨inside, by omega, tail, (if_neg empty).symm, ?_⟩, rfl⟩
      rw [if_neg (by omega), last]
    · intro same
      have first : around inbufSize (around inbufSize (start + 1) + 0)
          = around inbufSize (around inbufSize (start + 1) + held.length) := by
        rw [Nat.add_zero, around_self inside, ← last]
        exact same
      have zero := (around_inj (by omega) (by omega)).mp first
      exact empty (List.length_eq_zero_iff.mp zero.symm)

end SerialLine

namespace ArduinoSlip

open SerialLine

/-- The driver holds what the queue holds, and `dev_get` returned the same. -/
structure Follows (d : ArduinoSlip inbufSize) (q : LineQueue) : Prop where
  queued : ∃ start, d.line.Queued start q.held
  slipState : d.line.slipState = q.slipState
  returned : d.returned = q.returned

/-- An interrupt does not reach the buffer, is dropped by a full one, or stores its byte. -/
theorem Follows.isr (follows : d.Follows q) (c : UInt8)
    : ∃ d', d.isr c = some d' ∧ d'.Follows (q.step inbufSize (.interrupt c)) := by
  obtain ⟨⟨start, queued⟩, slipState, returned⟩ := follows
  unfold ArduinoSlip.isr LineQueue.step
  rw [slipState]
  dsimp only
  split
  · rename_i state _
    exact ⟨_, rfl, ⟨start, queued.congr rfl rfl rfl⟩, rfl, returned⟩
  · rename_i state b _
    have same : SerialLine.Queued { d.line with slipState := state } start q.held := queued.congr rfl rfl rfl
    by_cases full : q.held.length = inbufSize
    · rw [if_neg (not_not.mpr (same.full_iff.mpr full)), offer, if_pos full]
      exact ⟨_, rfl, ⟨start, same⟩, rfl, returned⟩
    · rw [if_pos (mt same.full_iff.mp full), offer, if_neg full]
      obtain ⟨l', put, queued', state'⟩ := same.put (c := b) (Nat.lt_of_le_of_ne queued.fits full)
      rw [put]
      exact ⟨_, rfl, ⟨start, queued'⟩, state', returned⟩

theorem Follows.devGet (follows : d.Follows q)
    : ∃ d', d.devGet = some d' ∧ d'.Follows (q.step inbufSize .get) := by
  obtain ⟨⟨start, queued⟩, slipState, returned⟩ := follows
  have empty := queued.empty_iff
  unfold ArduinoSlip.devGet LineQueue.step
  dsimp only
  cases eq : q.held with
  | nil =>
      rw [eq] at queued
      rw [if_pos (empty.mpr eq)]
      exact ⟨_, rfl, ⟨start, queued⟩, slipState, by rw [returned]⟩
  | cons c held =>
      rw [eq] at queued
      rw [if_neg (mt empty.mp (by rw [eq]; exact List.cons_ne_nil c held))]
      obtain ⟨l', read, queued', state'⟩ := queued.read
      rw [read]
      exact ⟨_, rfl, ⟨_, queued'⟩, state'.trans slipState, by rw [returned]⟩

/-- The driver behaves as the queue, by induction on the events. -/
theorem follows_run (buffer : Vector UInt8 inbufSize) (positive : 0 < inbufSize) (events : List LineEvent)
    : ∃ d, run buffer events = some d ∧ d.Follows (LineQueue.run inbufSize events) := by
  have all {d : ArduinoSlip inbufSize} {q : LineQueue} (follows : d.Follows q)
      : ∃ d', events.foldlM step d = some d' ∧ d'.Follows (events.foldl (LineQueue.step inbufSize) q) := by
    induction events generalizing d q with
    | nil => exact ⟨d, rfl, follows⟩
    | cons event events ih =>
        have first : ∃ d', d.step event = some d' ∧ d'.Follows (q.step inbufSize event) := by
          cases event with
          | interrupt c => exact follows.isr c
          | get => exact follows.devGet
        obtain ⟨d', first, follows'⟩ := first
        rw [List.foldlM_cons, first]
        exact ih follows'
  exact all ⟨⟨0, queued_init buffer positive⟩, rfl, rfl⟩

/-- In every order of interrupts and calls of `dev_get`, with delimiters anywhere between the encoded bytes, the driver
behaves as the queue: `dev_get` returns the decoded bytes in order, and those are missing that found the buffer full.
A null pointer tells that the buffer is empty, or that it is full.
-/
theorem serial_line_receives (buffer : Vector UInt8 inbufSize) (size : 2 ≤ inbufSize) (events : List LineEvent)
    (sent : List UInt8) (received : (lineBytes events).filter (· ≠ slipEnd) <+: sent.flatMap devPut)
    : let q := LineQueue.run inbufSize events
      (∃ d, run buffer events = some d ∧ d.returned = q.returned
        ∧ (d.line.readPtr = none ↔ q.held = []) ∧ (d.line.writePtr = none ↔ q.held.length = inbufSize))
      ∧ q.returned.reduceOption ++ q.held = q.kept
      ∧ q.decoded.map Prod.fst <+: sent
      ∧ ((lineBytes events).filter (· ≠ slipEnd) = sent.flatMap devPut → q.decoded.map Prod.fst = sent) := by
  intro q
  obtain ⟨d, ran, ⟨start, queued⟩, -, returned⟩ := follows_run buffer (by omega) events
  refine ⟨⟨d, ran, returned, queued.empty_iff, queued.full_iff⟩, LineQueue.returned_held inbufSize events, ?_,
    fun whole => ?_⟩
  · rw [LineQueue.decoded_run, ← decoded_filter]
    exact decoded_prefix received
  · rw [LineQueue.decoded_run, ← decoded_filter, whole, decoded_flatMap]

/-- A buffer of two bytes: a third byte is missing, and one of the others was escaped. -/
theorem serial_line_receives_full
    : let events : List LineEvent := [.interrupt 0xc0, .interrupt 0x45, .interrupt 0xdb, .interrupt 0xc0,
        .interrupt 0xdc, .interrupt 0x46, .get, .get, .get, .interrupt 0x47, .get, .interrupt 0xc0]
      let q := LineQueue.run 2 events
      (∃ d, run (Vector.replicate 2 0) events = some d ∧ d.returned = q.returned
        ∧ (d.line.readPtr = none ↔ q.held = []) ∧ (d.line.writePtr = none ↔ q.held.length = 2))
      ∧ q.returned.reduceOption ++ q.held = q.kept
      ∧ q.decoded.map Prod.fst <+: [0x45, 0xc0, 0x46, 0x47]
      ∧ ((lineBytes events).filter (· ≠ slipEnd) = [0x45, 0xc0, 0x46, 0x47].flatMap devPut →
        q.decoded.map Prod.fst = [0x45, 0xc0, 0x46, 0x47]) :=
  serial_line_receives (Vector.replicate 2 0) (by decide) _ [0x45, 0xc0, 0x46, 0x47] (by decide)

end ArduinoSlip

end Smews.Targets
