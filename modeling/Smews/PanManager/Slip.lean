import Mathlib.Data.List.Basic
import Mathlib.Data.List.Induction

/-! The serial line of the PAN manager: `forward_to_slip` and `read_from_slip`. A packet that is written
to the line is forwarded to the tun interface as it was, however the line is read.
-/

namespace Smews.PanManager

def slipEnd : UInt8 := 0xc0
def slipEsc : UInt8 := 0xdb
def slipEscEnd : UInt8 := 0xdc
def slipEscEsc : UInt8 := 0xdd

--------------------------------------------------
-- From the tun interface to the line
--------------------------------------------------

/-- What is written for a byte of a packet. -/
def stuff (c : UInt8) : List UInt8 :=
  if c = slipEnd then [slipEsc, slipEscEnd]
  else if c = slipEsc then [slipEsc, slipEscEsc]
  else [c]

/-- `forward_to_slip`: what is written for the packet that `tbuffer` holds. -/
def forwardToSlip (packet : List UInt8) : List UInt8 :=
  slipEnd :: (packet.flatMap stuff ++ [slipEnd])

--------------------------------------------------
-- From the line to the tun interface
--------------------------------------------------

inductive SlipState
  | slipIn
  | slipEscaped
deriving DecidableEq, Repr

variable {devMtu : Nat}

/-- What `read_from_slip` keeps between two bytes. `scurr` is the position in `dbuffer`, which both
static variables start from, and `forwarded` what `forward_to_tun` was given.
-/
structure Slip (devMtu : Nat) where
  slipState : SlipState
  dbuffer : Vector UInt8 devMtu
  scurr : Nat
  forwarded : List (List UInt8)

/-- After `init_slip`, whatever the buffer holds. -/
def Slip.init (dbuffer : Vector UInt8 devMtu) : Slip devMtu :=
  { slipState := .slipIn, dbuffer, scurr := 0, forwarded := [] }

/-- `forward_to_tun`. -/
def Slip.forwardToTun (s : Slip devMtu) (size : Nat) : Slip devMtu :=
  { s with forwarded := s.forwarded ++ [s.dbuffer.toList.take size] }

/-- `*scurr++ = c`, when `dbuffer` has room. -/
def Slip.store (s : Slip devMtu) (c : UInt8) : Slip devMtu :=
  if room : s.scurr < devMtu then
    { s with dbuffer := s.dbuffer.set s.scurr c room, scurr := s.scurr + 1 }
  else s

/-- An escaped byte, which stands for `meant`; the byte itself when it is not escaped. -/
def Slip.unescape (s : Slip devMtu) (c meant : UInt8) : Slip devMtu :=
  if s.slipState = .slipEscaped then { s with slipState := .slipIn }.store meant
  else s.store c

/-- A byte of the line. -/
def Slip.next (s : Slip devMtu) (c : UInt8) : Slip devMtu :=
  if c = slipEnd then
    if s.scurr ≠ 0 then { s.forwardToTun s.scurr with scurr := 0 } else s
  else if c = slipEsc then { s with slipState := .slipEscaped }
  else if c = slipEscEnd then s.unescape c slipEnd
  else if c = slipEscEsc then s.unescape c slipEsc
  else s.store c

/-- What a call of `read` returns. -/
structure SerialRead where
  bytes : List UInt8
  received : bytes ≠ []
  atMost : bytes.length ≤ 64

/-- `read_from_slip`, with what its reads return before there is nothing more. -/
def readFromSlip (s : Slip devMtu) (reads : List SerialRead) : Slip devMtu :=
  reads.foldl (fun s read => read.bytes.foldl Slip.next s) s

--------------------------------------------------
-- What is held
--------------------------------------------------

/-- Between two bytes of a packet: `held` was read of it and `forwarded` before it. -/
structure Slip.Holds (s : Slip devMtu) (held : List UInt8) (forwarded : List (List UInt8)) : Prop where
  state : s.slipState = .slipIn
  scurr : s.scurr = held.length
  dbuffer : s.dbuffer.toList.take held.length = held
  forwarded : s.forwarded = forwarded

variable {s : Slip devMtu} {held packet : List UInt8} {forwarded : List (List UInt8)} {c : UInt8}

theorem Slip.Holds.init (dbuffer : Vector UInt8 devMtu) : (Slip.init dbuffer).Holds [] [] :=
  ⟨rfl, rfl, rfl, rfl⟩

theorem Slip.Holds.store (holds : s.Holds held forwarded) (room : held.length < devMtu)
    : (s.store c).Holds (held ++ [c]) forwarded := by
  have inside : s.scurr < devMtu := by rwa [holds.scurr]
  rw [Slip.store, dif_pos inside]
  refine ⟨holds.state, by simp [holds.scurr], ?_, holds.forwarded⟩
  have full : s.dbuffer.toList.length = devMtu := s.dbuffer.length_toList
  rw [Vector.toList_set, holds.scurr, List.length_append, List.length_singleton,
    List.take_add_one, List.take_set_of_le (Nat.le_refl _), holds.dbuffer,
    List.getElem?_set_self (by omega)]
  rfl

/-- A byte of a packet is held as it was, stuffed or not. -/
theorem Slip.Holds.byte (holds : s.Holds held forwarded) (room : held.length < devMtu)
    : ((stuff c).foldl Slip.next s).Holds (held ++ [c]) forwarded := by
  have escaped (meant : UInt8)
      : ({ s with slipState := SlipState.slipIn }.store meant).Holds (held ++ [meant]) forwarded :=
    Holds.store ⟨rfl, holds.scurr, holds.dbuffer, holds.forwarded⟩ room
  have plain (other meant : UInt8) : (s.unescape other meant).Holds (held ++ [other]) forwarded := by
    rw [Slip.unescape, if_neg (by simp [holds.state])]
    exact holds.store room
  rw [stuff]
  split
  case isTrue isEnd =>
    subst isEnd
    exact escaped slipEnd
  case isFalse notEnd =>
    split
    case isTrue isEsc =>
      subst isEsc
      exact escaped slipEsc
    case isFalse notEsc =>
      rw [List.foldl_cons, List.foldl_nil, Slip.next, if_neg notEnd, if_neg notEsc]
      split
      · exact plain c slipEnd
      · split
        · exact plain c slipEsc
        · exact holds.store room

/-- The bytes of a packet are held as they were, by induction on them. -/
theorem Slip.Holds.stuffed (holds : s.Holds held forwarded)
    (fits : held.length + packet.length ≤ devMtu)
    : ((packet.flatMap stuff).foldl Slip.next s).Holds (held ++ packet) forwarded := by
  induction packet generalizing s held with
  | nil => simpa using holds
  | cons c packet ih =>
      rw [List.length_cons] at fits
      rw [List.flatMap_cons, List.foldl_append]
      have first : ((stuff c).foldl Slip.next s).Holds (held ++ [c]) forwarded :=
        holds.byte (by omega)
      have rest := ih first (by rw [List.length_append, List.length_singleton]; omega)
      rwa [List.append_assoc, List.singleton_append] at rest

/-- The end of a packet forwards it. -/
theorem Slip.Holds.ended (holds : s.Holds held forwarded) (nonempty : held ≠ [])
    : (s.next slipEnd).Holds [] (forwarded ++ [held]) := by
  have some : s.scurr ≠ 0 := by
    rw [holds.scurr]
    exact fun none => nonempty (List.length_eq_zero_iff.mp none)
  rw [Slip.next, if_pos rfl, if_pos some]
  refine ⟨holds.state, rfl, rfl, ?_⟩
  change s.forwarded ++ [s.dbuffer.toList.take s.scurr] = _
  rw [holds.forwarded, holds.scurr, holds.dbuffer]

/-- Between two packets, an end of packet changes nothing. -/
theorem Slip.Holds.between (holds : s.Holds [] forwarded) : (s.next slipEnd).Holds [] forwarded := by
  rw [Slip.next, if_pos rfl, if_neg (by simp [holds.scurr])]
  exact holds

/-- What `forward_to_slip` writes is forwarded as the packet. -/
theorem Slip.Holds.written (holds : s.Holds [] forwarded) (nonempty : packet ≠ [])
    (fits : packet.length ≤ devMtu)
    : ((forwardToSlip packet).foldl Slip.next s).Holds [] (forwarded ++ [packet]) := by
  rw [forwardToSlip, List.foldl_cons, List.foldl_append]
  exact (holds.between.stuffed (by simpa using fits)).ended nonempty

/-- What is written for a list of packets is forwarded as these packets, by induction on them. -/
theorem Slip.Holds.packets {packets : List (List UInt8)} (holds : s.Holds [] forwarded)
    (nonempty : ∀ packet ∈ packets, packet ≠ []) (fits : ∀ packet ∈ packets, packet.length ≤ devMtu)
    : ((packets.flatMap forwardToSlip).foldl Slip.next s).Holds [] (forwarded ++ packets) := by
  induction packets generalizing s forwarded with
  | nil => simpa using holds
  | cons packet packets ih =>
      rw [List.flatMap_cons, List.foldl_append]
      have first := holds.written (nonempty packet List.mem_cons_self)
        (fits packet List.mem_cons_self)
      have rest := ih first (fun packet mem => nonempty packet (List.mem_cons_of_mem _ mem))
        (fun packet mem => fits packet (List.mem_cons_of_mem _ mem))
      rwa [List.append_assoc, List.singleton_append] at rest

--------------------------------------------------
-- The line
--------------------------------------------------

/-- The reads of a call see the bytes of the line one after the other. -/
theorem readFromSlip_bytes (s : Slip devMtu) (reads : List SerialRead)
    : readFromSlip s reads = (reads.flatMap SerialRead.bytes).foldl Slip.next s := by
  rw [readFromSlip, List.foldl_flatMap]

/-- The bytes that calls of `read_from_slip` read. -/
def bytesOf (calls : List (List SerialRead)) : List UInt8 := calls.flatten.flatMap SerialRead.bytes

theorem calls_bytes (s : Slip devMtu) (calls : List (List SerialRead))
    : calls.foldl readFromSlip s = (bytesOf calls).foldl Slip.next s := by
  rw [bytesOf, ← readFromSlip_bytes, readFromSlip, List.foldl_flatten]
  rfl

/-- However the bytes of the line are cut into reads, and these into calls of `read_from_slip`, each
packet that was written to it is forwarded once, in their order, as it was.
-/
theorem slip_identity {dbuffer : Vector UInt8 devMtu} {packets : List (List UInt8)}
    {calls : List (List SerialRead)} (nonempty : ∀ packet ∈ packets, packet ≠ [])
    (fits : ∀ packet ∈ packets, packet.length ≤ devMtu)
    (line : calls.flatten.flatMap SerialRead.bytes = packets.flatMap forwardToSlip)
    : (calls.foldl readFromSlip (Slip.init dbuffer)).forwarded = packets := by
  rw [calls_bytes, bytesOf, line]
  simpa using ((Slip.Holds.init dbuffer).packets nonempty fits).forwarded

/-- Two packets, the second of special bytes, in reads that end behind an escape and between the
packets.
-/
theorem slip_identity_two
    : ([[⟨[0xc0, 0x45, 0xdb], by decide, by decide⟩],
          [⟨[0xdd, 0xc0], by decide, by decide⟩,
            ⟨[0xc0, 0xdb, 0xdc, 0xdc, 0xdd, 0xc0], by decide, by decide⟩]].foldl readFromSlip
        (Slip.init (Vector.replicate 4 0))).forwarded
      = [[0x45, 0xdb], [0xc0, 0xdc, 0xdd]] :=
  slip_identity (by decide) (by decide) (by decide)

--------------------------------------------------
-- After a delimiter
--------------------------------------------------

/-- What calls of `read_from_slip` forward. -/
def newPackets (s : Slip devMtu) (calls : List (List SerialRead)) : List (List UInt8) :=
  (calls.foldl readFromSlip s).forwarded.drop s.forwarded.length

/-- The last of the escape characters is one that announces another. -/
def EscapePending (bytes : List UInt8) : Prop :=
  bytes.reverse.find? (fun c => c = slipEsc || c = slipEscEnd || c = slipEscEsc) = some slipEsc

instance (bytes : List UInt8) : Decidable (EscapePending bytes) := inferInstanceAs (Decidable (_ = _))

/-- Two states that go on alike: what they forwarded before may differ. -/
structure Slip.Alike (s s' : Slip devMtu) (before before' : List (List UInt8)) : Prop where
  state : s'.slipState = s.slipState
  scurr : s'.scurr = s.scurr
  held : s'.dbuffer.toList.take s.scurr = s.dbuffer.toList.take s.scurr
  forwarded : ∃ packets, s.forwarded = before ++ packets ∧ s'.forwarded = before' ++ packets

section Alike

variable {s' : Slip devMtu} {before before' : List (List UInt8)} {bytes : List UInt8}

@[simp] theorem Slip.store_state (s : Slip devMtu) (c : UInt8) : (s.store c).slipState = s.slipState := by
  unfold Slip.store
  split <;> rfl

@[simp] theorem Slip.store_forwarded (s : Slip devMtu) (c : UInt8) : (s.store c).forwarded = s.forwarded := by
  unfold Slip.store
  split <;> rfl

theorem Slip.Alike.store (alike : s.Alike s' before before') (c : UInt8)
    : (s.store c).Alike (s'.store c) before before' := by
  refine ⟨?_, ?_, ?_, ?_⟩
  · rw [store_state, store_state, alike.state]
  all_goals unfold Slip.store
  · simp only [alike.scurr]
    split <;> simp [alike.scurr]
  · simp only [alike.scurr]
    split
    · have full : s.dbuffer.toList.length = devMtu := s.dbuffer.length_toList
      have full' : s'.dbuffer.toList.length = devMtu := s'.dbuffer.length_toList
      rw [Vector.toList_set, Vector.toList_set, List.take_add_one, List.take_add_one,
        List.take_set_of_le (Nat.le_refl _), List.take_set_of_le (Nat.le_refl _), alike.held,
        List.getElem?_set_self (by omega), List.getElem?_set_self (by omega)]
    · exact alike.held
  · simp only [alike.scurr]
    split <;> exact alike.forwarded

theorem Slip.Alike.unescape (alike : s.Alike s' before before') (c meant : UInt8)
    : (s.unescape c meant).Alike (s'.unescape c meant) before before' := by
  unfold Slip.unescape
  rw [alike.state]
  split
  · have plain : Slip.Alike { s with slipState := .slipIn } { s' with slipState := .slipIn } before before' :=
      ⟨rfl, alike.scurr, alike.held, alike.forwarded⟩
    exact plain.store meant
  · exact alike.store c

theorem Slip.Alike.next (alike : s.Alike s' before before') (c : UInt8)
    : (s.next c).Alike (s'.next c) before before' := by
  unfold Slip.next
  split
  · rw [alike.scurr]
    split
    · obtain ⟨packets, forwarded, forwarded'⟩ := alike.forwarded
      refine ⟨alike.state, rfl, rfl, packets ++ [s.dbuffer.toList.take s.scurr], ?_, ?_⟩
      · simp only [Slip.forwardToTun, forwarded, List.append_assoc]
      · simp only [Slip.forwardToTun, forwarded', alike.held, List.append_assoc]
    · exact alike
  · split
    · exact ⟨rfl, alike.scurr, alike.held, alike.forwarded⟩
    · split
      · exact alike.unescape c slipEnd
      · split
        · exact alike.unescape c slipEsc
        · exact alike.store c

/-- Two states go on alike with all bytes, by induction on them. -/
theorem Slip.Alike.readBytes (alike : s.Alike s' before before') (bytes : List UInt8)
    : (bytes.foldl Slip.next s).Alike (bytes.foldl Slip.next s') before before' := by
  induction bytes generalizing s s' with
  | nil => exact alike
  | cons c bytes ih => exact ih (alike.next c)

theorem Slip.Alike.newPackets (alike : s.Alike s' s.forwarded s'.forwarded) (calls : List (List SerialRead))
    : PanManager.newPackets s calls = PanManager.newPackets s' calls := by
  obtain ⟨packets, forwarded, forwarded'⟩ := (alike.readBytes (bytesOf calls)).forwarded
  rw [PanManager.newPackets, PanManager.newPackets, calls_bytes, calls_bytes, forwarded, forwarded', List.drop_left, List.drop_left]

/-- No byte is held when `dbuffer` has no room. -/
theorem Slip.next_full (none : devMtu = 0) (empty : s.scurr = 0) (c : UInt8)
    : (s.next c).scurr = 0 ∧ (s.next c).forwarded = s.forwarded := by
  have store (s : Slip devMtu) (c : UInt8) : s.store c = s := by
    rw [Slip.store, dif_neg (by omega)]
  unfold Slip.next Slip.unescape
  simp only [store, empty, ne_eq, not_true_eq_false, if_false]
  repeat' split
  all_goals first | exact ⟨rfl, rfl⟩ | exact ⟨empty, rfl⟩

/-- Nothing is forwarded when `dbuffer` has no room, by induction on the bytes. -/
theorem Slip.bytes_full (none : devMtu = 0) (empty : s.scurr = 0) (bytes : List UInt8)
    : (bytes.foldl Slip.next s).scurr = 0 ∧ (bytes.foldl Slip.next s).forwarded = s.forwarded := by
  induction bytes generalizing s with
  | nil => exact ⟨empty, rfl⟩
  | cons c bytes ih =>
      obtain ⟨scurr, forwarded⟩ := s.next_full none empty c
      obtain ⟨scurr', forwarded'⟩ := ih scurr
      exact ⟨scurr', forwarded'.trans forwarded⟩

/-- What the last byte says about the escape. -/
theorem Slip.next_state (s : Slip devMtu) (c : UInt8)
    : (s.next c).slipState = if c = slipEsc then .slipEscaped
        else if c = slipEscEnd ∨ c = slipEscEsc then .slipIn else s.slipState := by
  have unescaped (meant : UInt8) : (s.unescape c meant).slipState = .slipIn := by
    unfold Slip.unescape
    split
    · exact store_state ..
    · rw [store_state]
      cases state : s.slipState with
      | slipIn => rfl
      | slipEscaped => contradiction
  unfold Slip.next
  by_cases isEnd : c = slipEnd
  · have plain : c ≠ slipEsc ∧ ¬ (c = slipEscEnd ∨ c = slipEscEsc) := isEnd ▸ by decide
    rw [if_pos isEnd, if_neg plain.1, if_neg plain.2]
    split <;> rfl
  · rw [if_neg isEnd]
    by_cases esc : c = slipEsc
    · rw [if_pos esc, if_pos esc]
    · rw [if_neg esc, if_neg esc]
      by_cases escEnd : c = slipEscEnd
      · rw [if_pos escEnd, if_pos (.inl escEnd), unescaped]
      · rw [if_neg escEnd]
        by_cases escEsc : c = slipEscEsc
        · rw [if_pos escEsc, if_pos (.inr escEsc), unescaped]
        · rw [if_neg escEsc, if_neg (by simp [escEnd, escEsc]), store_state]

/-- The escape that is pending after some bytes, by induction on them from the end. -/
theorem Slip.escaped_iff (dbuffer : Vector UInt8 devMtu) (bytes : List UInt8)
    : (bytes.foldl Slip.next (Slip.init dbuffer)).slipState = .slipEscaped ↔ EscapePending bytes := by
  induction bytes using List.reverseRecOn with
  | nil => exact iff_of_false nofun nofun
  | append_singleton bytes c ih =>
      rw [List.foldl_append, List.foldl_cons, List.foldl_nil, next_state, EscapePending, List.reverse_append,
        List.reverse_singleton, List.singleton_append, List.find?_cons]
      by_cases esc : c = slipEsc
      · simp [esc]
      · by_cases other : c = slipEscEnd ∨ c = slipEscEsc
        · rw [if_neg esc, if_pos other]
          rcases other with rfl | rfl
          all_goals exact iff_of_false nofun fun eq => absurd (Option.some.inj eq) (by decide)
        · rw [if_neg esc, if_neg other, ih, EscapePending]
          obtain ⟨escEnd, escEsc⟩ := not_or.mp other
          simp [esc, escEnd, escEsc]

theorem Slip.next_end (s : Slip devMtu) : (s.next slipEnd).scurr = 0 := by
  rw [Slip.next, if_pos rfl]
  split
  · rfl
  · rename_i empty
    exact not_not.mp empty

/-- A delimiter leaves nothing of the packet before it. -/
theorem Slip.ended_alike {s s' : Slip devMtu} {bytes bytes' : List UInt8}
    (ends : bytes.getLast? = some slipEnd) (ends' : bytes'.getLast? = some slipEnd)
    (state : (bytes'.foldl Slip.next s').slipState = (bytes.foldl Slip.next s).slipState)
    : (bytes.foldl Slip.next s).Alike (bytes'.foldl Slip.next s') (bytes.foldl Slip.next s).forwarded
        (bytes'.foldl Slip.next s').forwarded := by
  have empty {s : Slip devMtu} {bytes : List UInt8} (ends : bytes.getLast? = some slipEnd)
      : (bytes.foldl Slip.next s).scurr = 0 := by
    obtain ⟨front, rfl⟩ := List.getLast?_eq_some_iff.mp ends
    rw [List.foldl_append]
    exact next_end _
  refine ⟨state, by rw [empty ends, empty ends'], ?_, [], by simp, by simp⟩
  rw [empty ends, List.take_zero, List.take_zero]

/-- An escaped end of packet behind a delimiter tells whether an escape was pending. -/
theorem Slip.after_end {s : Slip devMtu} (empty : s.scurr = 0) (room : 0 < devMtu)
    : newPackets s [[⟨[slipEscEnd, slipEnd], by decide, by decide⟩]]
      = [[if s.slipState = .slipEscaped then slipEnd else slipEscEnd]] := by
  have holds (meant : UInt8) : (Slip.store { s with slipState := .slipIn } meant).Holds ([] ++ [meant]) s.forwarded :=
    Slip.Holds.store ⟨rfl, empty, rfl, rfl⟩ room
  have stored : (s.next slipEscEnd).Holds [if s.slipState = .slipEscaped then slipEnd else slipEscEnd] s.forwarded := by
    have read : s.next slipEscEnd = s.unescape slipEscEnd slipEnd := rfl
    rw [read, Slip.unescape]
    split
    · exact holds slipEnd
    · rename_i plain
      have same : s = { s with slipState := .slipIn } := by
        cases s with
        | mk state dbuffer scurr forwarded =>
            cases state with
            | slipIn => rfl
            | slipEscaped => contradiction
      rw [same]
      exact holds slipEscEnd
  have forwarded := (stored.ended (List.cons_ne_nil _ _)).forwarded
  rw [newPackets]
  show ((s.next slipEscEnd).next slipEnd).forwarded.drop s.forwarded.length = _
  rw [forwarded, List.drop_left]

/-- After two histories that end with a delimiter the same packets are forwarded for the same input, when an escape
is pending after both or after none, and only then, unless there is no room for a packet at all.
-/
theorem slip_resynchronises_iff {dbuffer dbuffer' : Vector UInt8 devMtu} {history history' : List (List SerialRead)}
    (ends : (bytesOf history).getLast? = some slipEnd) (ends' : (bytesOf history').getLast? = some slipEnd)
    : (∀ calls, newPackets (history.foldl readFromSlip (Slip.init dbuffer)) calls
        = newPackets (history'.foldl readFromSlip (Slip.init dbuffer')) calls)
      ↔ devMtu = 0 ∨ (EscapePending (bytesOf history) ↔ EscapePending (bytesOf history')) := by
  rw [calls_bytes, calls_bytes, ← Slip.escaped_iff dbuffer, ← Slip.escaped_iff dbuffer']
  constructor
  · intro same
    refine Decidable.or_iff_not_imp_left.mpr fun room => ?_
    have empty {dbuffer : Vector UInt8 devMtu} {history : List (List SerialRead)}
        (ends : (bytesOf history).getLast? = some slipEnd)
        : ((bytesOf history).foldl Slip.next (Slip.init dbuffer)).scurr = 0 := by
      obtain ⟨front, eq⟩ := List.getLast?_eq_some_iff.mp ends
      rw [eq, List.foldl_append]
      exact Slip.next_end _
    have packets := same [[⟨[slipEscEnd, slipEnd], by decide, by decide⟩]]
    rw [Slip.after_end (empty ends) (Nat.pos_of_ne_zero room), Slip.after_end (empty ends') (Nat.pos_of_ne_zero room)]
      at packets
    have byte := List.head_eq_of_cons_eq (List.head_eq_of_cons_eq packets)
    constructor
    all_goals
      intro escaped
      by_contra plain
      rw [if_pos escaped, if_neg plain] at byte
      exact absurd byte (by decide)
  · rintro (none | same) calls
    · have full {dbuffer : Vector UInt8 devMtu} {history : List (List SerialRead)}
          : newPackets ((bytesOf history).foldl Slip.next (Slip.init dbuffer)) calls = [] := by
        obtain ⟨scurr, -⟩ := Slip.bytes_full (s := Slip.init dbuffer) none rfl (bytesOf history)
        rw [newPackets, calls_bytes, (Slip.bytes_full none scurr _).2, List.drop_length]
      rw [full, full]
    · refine (Slip.ended_alike ends ends' ?_).newPackets calls
      generalize (bytesOf history).foldl Slip.next (Slip.init dbuffer) = s at same ⊢
      generalize (bytesOf history').foldl Slip.next (Slip.init dbuffer') = s' at same ⊢
      cases state : s.slipState <;> cases state' : s'.slipState <;> simp [state, state'] at same ⊢

/-- A frame without bytes, and one that was cut behind its escape, then frames with another escape. -/
theorem slip_resynchronises_iff_pending
    : (∀ calls, newPackets ([[⟨[0xdb, 0xc0], by decide, by decide⟩]].foldl readFromSlip
            (Slip.init (Vector.replicate 4 0))) calls
          = newPackets ([[⟨[0x45, 0xc0, 0xdb, 0xc0], by decide, by decide⟩]].foldl readFromSlip
            (Slip.init (Vector.replicate 4 0))) calls)
      ↔ 4 = 0 ∨ (EscapePending (bytesOf [[⟨[0xdb, 0xc0], by decide, by decide⟩]])
        ↔ EscapePending (bytesOf [[⟨[0x45, 0xc0, 0xdb, 0xc0], by decide, by decide⟩]])) :=
  slip_resynchronises_iff (by decide) (by decide)

/-- A frame that was cut behind its escape changes the next packet. -/
theorem slip_resynchronises_fails_cut
    : (bytesOf [[⟨[0xc0], by decide, by decide⟩]]).getLast? = some slipEnd
      ∧ (bytesOf [[⟨[0xdb, 0xc0], by decide, by decide⟩]]).getLast? = some slipEnd
      ∧ newPackets ([[⟨[0xc0], by decide, by decide⟩]].foldl readFromSlip (Slip.init (Vector.replicate 4 0)))
          [[⟨[0x45, 0xdc, 0xc0], by decide, by decide⟩]] = [[0x45, 0xdc]]
      ∧ newPackets ([[⟨[0xdb, 0xc0], by decide, by decide⟩]].foldl readFromSlip (Slip.init (Vector.replicate 4 0)))
          [[⟨[0x45, 0xdc, 0xc0], by decide, by decide⟩]] = [[0x45, 0xc0]] := by
  decide

end Alike

end Smews.PanManager
