import Smews.Library.Runs
import Smews.Targets.MbedEthernet
import Mathlib.Data.List.ReduceOption

/-! What `mbed_eth_get_byte` reads: the IP packets of the frames for the board, in the order in which they arrived.
-/

namespace Smews.Targets

open Smews.Core ByteMemory Runs MbedEthernet

variable {b : Board} {s s' : MbedEthernet}

--------------------------------------------------
-- Frames
--------------------------------------------------

/-- A frame with an IP packet, for the board or for many. -/
def Accepted (b : Board) (packet : RxPacket) : Prop :=
  let eth := protoEthDemangle packet.bytes
  eth.type = protoIp ∧ (protoEthAddrIsMulticast eth.dst ∨ eth.dst = b.localEthAddr)

instance (b : Board) (packet : RxPacket) : Decidable (Accepted b packet) := inferInstanceAs (Decidable (_ ∧ _))

/-- The bytes that the driver takes from a frame: the IP packet as long as its header says, but one byte at least, and
no more than `DEV_MTU` bytes with the Ethernet header.
-/
def takenBytes (packet : RxPacket) : List UInt8 :=
  let size := (protoIpGetSize fun i => packet.bytes (protoMacHlen + i)).toNat
  bytesAt packet.bytes protoMacHlen (max 1 (min size (devMtu - protoMacHlen)))

/-- What a frame brings. -/
def brought (b : Board) (packet : RxPacket) : List UInt8 := if Accepted b packet then takenBytes packet else []

/-- The bytes that are left of the current frame. -/
def unread (s : MbedEthernet) : List UInt8 :=
  match s.currentRxFrame with
  | none => []
  | some packet => bytesAt packet.bytes s.currentRxFrameIdx (max 1 (s.currentRxFrameSize - s.currentRxFrameIdx))

/-- The frames behind the current one, and behind the one that is given back. -/
def behind (s : MbedEthernet) : List RxPacket :=
  if s.currentRxFrame = none ∧ s.place ≠ .givingBack then s.rxQueue else s.rxQueue.tail

--------------------------------------------------
-- The interrupt
--------------------------------------------------

/-- Nothing of the input changes but the address cache. -/
structure SameInput (s s' : MbedEthernet) : Prop where
  rxQueue : s'.rxQueue = s.rxQueue
  currentRxFrame : s'.currentRxFrame = s.currentRxFrame
  currentRxFrameSize : s'.currentRxFrameSize = s.currentRxFrameSize
  currentRxFrameIdx : s'.currentRxFrameIdx = s.currentRxFrameIdx
  place : s'.place = .givingBack ↔ s.place = .givingBack
  returned : s'.returned = s.returned

theorem SameInput.refl (s : MbedEthernet) : SameInput s s := ⟨rfl, rfl, rfl, rfl, .rfl, rfl⟩

theorem SameInput.trans {s'' : MbedEthernet} (first : SameInput s s') (second : SameInput s' s'') : SameInput s s'' :=
  ⟨
    second.rxQueue.trans first.rxQueue, second.currentRxFrame.trans first.currentRxFrame,
    second.currentRxFrameSize.trans first.currentRxFrameSize, second.currentRxFrameIdx.trans first.currentRxFrameIdx,
    second.place.trans first.place, second.returned.trans first.returned
  ⟩

theorem SameInput.processArp (eth : EthHead) (packet : RxPacket) (s : MbedEthernet)
    : SameInput s (s.processArp b eth packet) := by
  unfold MbedEthernet.processArp
  dsimp only
  split_ifs <;> exact ⟨rfl, rfl, rfl, rfl, .rfl, rfl⟩

theorem SameInput.garbageTxBuffers (s : MbedEthernet) : SameInput s s.garbageTxBuffers := by
  have one (s : MbedEthernet) (i : Nat) : SameInput s (s.garbage i) := by
    unfold MbedEthernet.garbage
    dsimp only
    split_ifs
    · exact .refl s
    · split <;> exact ⟨rfl, rfl, rfl, rfl, .rfl, rfl⟩
  unfold MbedEthernet.garbageTxBuffers
  generalize List.range txDescriptors = is
  induction is generalizing s with
  | nil => exact .refl s
  | cons i is ih => exact (one s i).trans (ih (s.garbage i))

theorem SameInput.prepareOutput (prepare : s.prepareOutput = some s') : SameInput s s' := by
  have taken {t t' : MbedEthernet} {i : Nat} (get : t.getTxBuffer = some (i, t')) : SameInput t t' := by
    obtain ⟨j, -, same⟩ := Option.map_eq_some_iff.mp get
    cases same
    exact ⟨rfl, rfl, rfl, rfl, .rfl, rfl⟩
  unfold MbedEthernet.prepareOutput at prepare
  split_ifs at prepare
  · cases prepare
    exact .refl s
  · obtain ⟨⟨i, t⟩, get, same⟩ := Option.map_eq_some_iff.mp prepare
    cases same
    rcases Option.or_eq_some_iff.mp get with get | ⟨-, get⟩
    · exact (taken get).trans ⟨rfl, rfl, rfl, rfl, .rfl, rfl⟩
    · exact ((SameInput.garbageTxBuffers s).trans (taken get)).trans ⟨rfl, rfl, rfl, rfl, .rfl, rfl⟩

theorem SameInput.putNbytes {bytes : List UInt8} (put : s.putNbytes b bytes = some s') : SameInput s s' := by
  unfold MbedEthernet.putNbytes at put
  split at put
  · cases put
    exact .refl s
  · dsimp only at put
    split_ifs at put
    cases put
    exact ⟨rfl, rfl, rfl, rfl, .rfl, rfl⟩

theorem storePacket_cases {data : TxPointer} {idx : Nat} {last : Bool}
    (stored : s.storePacket b data idx last = some s')
    : ∃ i, s' = { s.setDescriptor i { s.descriptors i with packet := some data } with place := .storing i last } := by
  unfold storePacket at stored
  dsimp only at stored
  split_ifs at stored
  cases stored
  exact ⟨_, rfl⟩

theorem storeStatus_cases (step : next b s .storeStatus = some s')
    : ∃ i last, s.place = .storing i last
      ∧ s' = s.storeStatus (if last then s.currentBufferSize else protoMacHlen) i last := by
  unfold next at step
  dsimp only at step
  split at step
  · rename_i i last place
    cases step
    exact ⟨i, last, place, rfl⟩
  · cases step

theorem SameInput.of_place (rxQueue : s'.rxQueue = s.rxQueue) (frame : s'.currentRxFrame = s.currentRxFrame)
    (size : s'.currentRxFrameSize = s.currentRxFrameSize) (idx : s'.currentRxFrameIdx = s.currentRxFrameIdx)
    (returned : s'.returned = s.returned) (before : s.place ≠ .givingBack) (after : s'.place ≠ .givingBack)
    : SameInput s s' :=
  ⟨rxQueue, frame, size, idx, ⟨fun giving => absurd giving after, fun giving => absurd giving before⟩, returned⟩

/-- What the driver makes of a frame while it has none. -/
theorem processInput_cases (packet : RxPacket) (idle : s.currentRxFrame = none)
    : (∃ s', s.processInput b packet = (true, s') ∧ SameInput s s' ∧ brought b packet = [])
      ∨ ∃ s', s.processInput b packet = (false, s') ∧ s'.currentRxFrame = some packet
        ∧ s'.rxQueue = s.rxQueue ∧ s'.place = s.place ∧ s'.returned = s.returned ∧ unread s' = brought b packet := by
  have other : s.currentRxFrame.map RxPacket.buffer ≠ some packet.buffer := by
    rw [idle]
    exact Option.some_ne_none _ |>.symm
  unfold processInput brought
  rw [if_neg other]
  dsimp only
  by_cases arp : (protoEthDemangle packet.bytes).type = protoArp
  · have refused : ¬ Accepted b packet := by
      rintro ⟨ip, -⟩
      exact absurd (arp.symm.trans ip) (by decide)
    rw [if_pos arp, if_neg refused]
    exact .inl ⟨_, rfl, .processArp _ packet s, rfl⟩
  rw [if_neg arp]
  by_cases ip : (protoEthDemangle packet.bytes).type = protoIp
  · rw [if_neg (not_not.mpr ip)]
    by_cases foreign : ¬ protoEthAddrIsMulticast (protoEthDemangle packet.bytes).dst
        ∧ (protoEthDemangle packet.bytes).dst ≠ b.localEthAddr
    · have refused : ¬ Accepted b packet := by
        rintro ⟨-, own⟩
        exact own.elim foreign.1 foreign.2
      rw [if_pos foreign, if_neg refused]
      exact .inl ⟨s, rfl, .refl s, rfl⟩
    · have accepted : Accepted b packet := by
        refine ⟨ip, ?_⟩
        by_contra none
        exact foreign ⟨fun multicast => none (.inl multicast), fun own => none (.inr own)⟩
      rw [if_neg foreign, if_pos accepted]
      refine .inr ⟨_, rfl, rfl, rfl, rfl, rfl, ?_⟩
      unfold unread takenBytes
      dsimp only
      congr 1
      have header : protoMacHlen = 14 := rfl
      have mtu : devMtu = 1500 := rfl
      split <;> omega
  · have refused : ¬ Accepted b packet := fun accepted => ip accepted.1
    rw [if_pos ip, if_neg refused]
    exact .inl ⟨s, rfl, .refl s, rfl⟩

/-- The current frame is the first one that was not given back. -/
def Held (s : MbedEthernet) : Prop := ∀ packet, s.currentRxFrame = some packet → s.rxQueue.head? = some packet

/-- The interrupt handler takes a frame, behind those that it drops, by induction on its loop. -/
theorem processRx_takes (n : Nat) (idle : s.currentRxFrame = none) (outside : s.place ≠ .givingBack)
    : ∃ processed, s.rxQueue = processed ++ behind (s.processRx b n)
      ∧ processed.flatMap (brought b) = unread (s.processRx b n)
      ∧ Held (s.processRx b n) ∧ (s.processRx b n).place ≠ .givingBack
      ∧ (s.processRx b n).returned = s.returned := by
  have nothing (s : MbedEthernet) (idle : s.currentRxFrame = none) (outside : s.place ≠ .givingBack)
      : s.rxQueue = [] ++ behind s ∧ [].flatMap (brought b) = unread s ∧ Held s := by
    refine ⟨?_, ?_, fun packet own => ?_⟩
    · rw [behind, if_pos ⟨idle, outside⟩, List.nil_append]
    · rw [unread, idle, List.flatMap_nil]
    · rw [idle] at own
      cases own
  induction n generalizing s with
  | zero =>
      obtain ⟨queue, bytes, held⟩ := nothing s idle outside
      exact ⟨[], queue, bytes, held, outside, rfl⟩
  | succ n ih =>
      unfold processRx
      cases queue : s.rxQueue with
      | nil =>
          obtain ⟨queue', bytes, held⟩ := nothing s idle outside
          exact ⟨[], queue.symm.trans queue', bytes, held, outside, rfl⟩
      | cons packet rxQueue =>
          dsimp only
          rcases processInput_cases (b := b) packet idle with ⟨t, process, same, none⟩
            | ⟨t, process, current, queue', place, returned, bytes⟩
          · rw [process]
            dsimp only
            obtain ⟨processed, taken, bytes, held, place, returned⟩ := ih (s := { t with rxQueue })
              (same.currentRxFrame.trans idle) (fun giving => outside (same.place.mp giving))
            refine ⟨packet :: processed, ?_, ?_, held, place, returned.trans same.returned⟩
            · rw [List.cons_append, ← taken]
            · rw [List.flatMap_cons, none, List.nil_append, bytes]
          · rw [process]
            dsimp only
            refine ⟨[packet], ?_, ?_, fun other own => ?_, by rwa [place], returned⟩
            · rw [behind, if_neg (fun free => by rw [current] at free; cases free.1), queue', queue]
              rfl
            · rw [List.flatMap_cons, List.flatMap_nil, List.append_nil, bytes]
            · rw [current] at own
              cases own
              rw [queue', queue]
              rfl

--------------------------------------------------
-- Runs
--------------------------------------------------

/-- The frame that arrives with an event. -/
def arrival? : Event → Option RxPacket
  | .arrives packet => some packet
  | _ => none

/-- Whether the interrupt handler looks for frames. -/
def receives : Event → Bool
  | .irq rxDone _ => rxDone
  | _ => false

/-- No frame is looked for while the buffer of the last one is given back. -/
def Undisturbed (s : MbedEthernet) (event : Event) : Prop := receives event → s.place ≠ .givingBack

instance (s : MbedEthernet) (event : Event) : Decidable (Undisturbed s event) := inferInstanceAs (Decidable (_ → _))

/-- The frames that arrived are those that were processed, whose bytes were or will be returned, and those behind. -/
structure Reading (b : Board) (arrived : List RxPacket) (s : MbedEthernet) : Prop where
  held : Held s
  giving : s.place = .givingBack → s.currentRxFrame = none ∧ s.rxQueue ≠ []
  taken : ∃ processed, arrived = processed ++ behind s
    ∧ s.returned.reduceOption ++ unread s = processed.flatMap (brought b)

theorem Reading.congr {arrived : List RxPacket} (reading : Reading b arrived s) (same : SameInput s s')
    : Reading b arrived s' := by
  obtain ⟨held, giving, processed, queue, bytes⟩ := reading
  have behind_eq : behind s' = behind s := by
    simp only [behind, same.currentRxFrame, same.rxQueue, ne_eq, same.place]
  have unread_eq : unread s' = unread s := by
    simp only [unread, same.currentRxFrame, same.currentRxFrameSize, same.currentRxFrameIdx]
  refine ⟨fun packet own => ?_, fun place => ?_, processed, by rw [queue, behind_eq], ?_⟩
  · rw [same.rxQueue]
    exact held packet (same.currentRxFrame.symm.trans own)
  · rw [same.currentRxFrame, same.rxQueue]
    exact giving (same.place.mp place)
  · rw [same.returned, unread_eq, bytes]

/-- A frame arrives behind the others. -/
theorem Reading.arrives {arrived : List RxPacket} (reading : Reading b arrived s) (packet : RxPacket)
    : Reading b (arrived ++ [packet]) { s with rxQueue := s.rxQueue ++ [packet] } := by
  obtain ⟨held, giving, processed, queue, bytes⟩ := reading
  refine ⟨fun other own => ?_, fun place => ?_, processed, ?_, bytes⟩
  · have first := held other own
    dsimp only
    rw [List.head?_append, first]
    rfl
  · exact ⟨(giving place).1, by simp⟩
  · rw [queue, List.append_assoc, List.append_cancel_left_eq]
    unfold behind
    dsimp only
    split_ifs with free
    · rfl
    · have nonempty : s.rxQueue ≠ [] := by
        rw [not_and_or, not_not] at free
        rcases free with busy | giving'
        · obtain ⟨other, own⟩ := Option.ne_none_iff_exists'.mp busy
          intro empty
          have first := held other own
          rw [empty] at first
          cases first
        · exact (giving giving').2
      rw [List.tail_append_of_ne_nil nonempty]

/-- The interrupt handler leaves a current frame alone. -/
theorem processRx_busy {packet : RxPacket} (n : Nat) (busy : s.currentRxFrame = some packet) (held : Held s)
    : s.processRx b n = s := by
  cases n with
  | zero => rfl
  | succ n =>
      have first := held packet busy
      unfold processRx
      cases queue : s.rxQueue with
      | nil => rfl
      | cons other rxQueue =>
          rw [queue, List.head?_cons, Option.some.injEq] at first
          have process : s.processInput b other = (false, s) := by
            unfold processInput
            rw [busy, first]
            exact if_pos rfl
          dsimp only
          rw [process]

theorem Reading.irq {arrived : List RxPacket} (reading : Reading b arrived s) (rxDone txDone : Bool)
    (undisturbed : rxDone → s.place ≠ .givingBack)
    : Reading b arrived (s.ethIrqHandler b rxDone txDone) := by
  have received : Reading b arrived (if rxDone then s.processRx b txDescriptors else s) := by
    split_ifs with rx
    · cases current : s.currentRxFrame with
      | some packet =>
          rw [processRx_busy txDescriptors current reading.held]
          exact reading
      | none =>
          obtain ⟨-, -, processed, queue, bytes⟩ := reading
          obtain ⟨processed', queue', bytes', held, outside, returned⟩ :=
            processRx_takes (b := b) txDescriptors current (undisturbed rx)
          rw [behind, if_pos ⟨current, undisturbed rx⟩, queue'] at queue
          rw [unread, current, List.append_nil] at bytes
          refine ⟨held, fun giving => absurd giving outside, processed ++ processed', ?_, ?_⟩
          · rw [queue, List.append_assoc]
          · rw [returned, bytes, List.flatMap_append, bytes']
    · exact reading
  unfold ethIrqHandler
  dsimp only
  generalize (if rxDone then s.processRx b txDescriptors else s) = t at received ⊢
  split_ifs
  · exact received.congr (.garbageTxBuffers t)
  · exact received

theorem getByte_idle (idle : s.currentRxFrame = none) : s.getByte = { s with returned := s.returned ++ [none] } := by
  unfold MbedEthernet.getByte
  rw [idle]

theorem getByte_busy {packet : RxPacket} (busy : s.currentRxFrame = some packet)
    : s.getByte = if s.currentRxFrameSize ≤ s.currentRxFrameIdx + 1 then
        { s with
          currentRxFrame := none
          currentRxFrameIdx := s.currentRxFrameIdx + 1
          place := .givingBack
          returned := s.returned ++ [some (packet.bytes s.currentRxFrameIdx)]
        }
      else
        { s with
          currentRxFrameIdx := s.currentRxFrameIdx + 1
          returned := s.returned ++ [some (packet.bytes s.currentRxFrameIdx)]
        } := by
  unfold MbedEthernet.getByte
  rw [busy]

/-- A byte is read, or -1 is returned. -/
theorem Reading.getByte {arrived : List RxPacket} (reading : Reading b arrived s) (outside : s.place = .outside)
    : Reading b arrived s.getByte := by
  obtain ⟨held, giving, processed, queue, bytes⟩ := reading
  cases current : s.currentRxFrame with
  | none =>
      rw [getByte_idle current]
      refine ⟨held, giving, processed, queue, ?_⟩
      rw [← bytes]
      simp [unread, current, List.reduceOption_append]
  | some packet =>
      have first := held packet current
      have tail : behind s = s.rxQueue.tail := by
        rw [behind, if_neg (fun free => by rw [current] at free; cases free.1)]
      rw [tail] at queue
      rw [unread, current] at bytes
      dsimp only at bytes
      rw [getByte_busy current]
      split_ifs with last
      · refine ⟨fun other own => ?_, fun _ => ⟨rfl, fun empty => ?_⟩, processed, ?_, ?_⟩
        · cases own
        · rw [empty] at first
          cases first
        · rw [queue]
          simp [behind]
        · have one : max 1 (s.currentRxFrameSize - s.currentRxFrameIdx) = 0 + 1 := by omega
          rw [one, bytesAt_succ] at bytes
          rw [← bytes]
          simp [unread, bytesAt, List.reduceOption_append]
      · refine ⟨fun other own => ?_, fun place => ?_, processed, ?_, ?_⟩
        · exact held other own
        · rw [outside] at place
          cases place
        · rw [queue]
          simp [behind, current]
        · have more : max 1 (s.currentRxFrameSize - s.currentRxFrameIdx)
              = max 1 (s.currentRxFrameSize - (s.currentRxFrameIdx + 1)) + 1 := by omega
          rw [more, bytesAt_succ] at bytes
          rw [← bytes]
          simp [unread, current, List.reduceOption_append]

theorem Reading.step {arrived : List RxPacket} {event : Event} (reading : Reading b arrived s)
    (step : Step b s event s') (undisturbed : Undisturbed s event)
    : Reading b (arrived ++ (arrival? event).toList) s' := by
  have nothing {t : MbedEthernet} (kept : Reading b arrived t) : Reading b (arrived ++ []) t := by
    rwa [List.append_nil]
  unfold Step next at step
  cases event with
  | arrives packet =>
      dsimp only at step
      split_ifs at step
      cases step
      exact reading.arrives packet
  | transmits =>
      dsimp only at step
      split_ifs at step
      cases step
      exact nothing (reading.congr ⟨rfl, rfl, rfl, rfl, .rfl, rfl⟩)
  | irq rxDone txDone =>
      cases step
      exact nothing (reading.irq rxDone txDone undisturbed)
  | getByte =>
      dsimp only at step
      split_ifs at step with outside
      cases step
      exact nothing (reading.getByte outside)
  | giveBack =>
      dsimp only at step
      split_ifs at step with giving
      cases step
      obtain ⟨-, before, processed, queue, bytes⟩ := reading
      have idle := (before giving).1
      rw [behind, if_neg (fun free => free.2 giving)] at queue
      refine nothing ⟨fun packet own => ?_, (fun place => by cases place), processed, ?_, ?_⟩
      · exact absurd (idle.symm.trans own) (Option.some_ne_none _).symm
      · rw [queue]
        simp [behind, MbedEthernet.giveBack, idle]
      · rw [← bytes]
        simp [unread, MbedEthernet.giveBack, idle]
  | prepareOutput =>
      dsimp only at step
      split_ifs at step
      exact nothing (reading.congr (.prepareOutput step))
  | putNbytes bytes =>
      dsimp only at step
      split_ifs at step
      exact nothing (reading.congr (.putNbytes step))
  | fillHeader ip =>
      dsimp only at step
      split_ifs at step with outside
      cases step
      exact nothing (reading.congr (.of_place rfl rfl rfl rfl rfl (by rw [outside]; decide) (by simp [fillHeader])))
  | storeHeader =>
      dsimp only at step
      split_ifs at step with filled
      obtain ⟨i, rfl⟩ := storePacket_cases step
      exact nothing (reading.congr (.of_place rfl rfl rfl rfl rfl (by rw [filled]; decide) (by simp)))
  | storePayload =>
      dsimp only at step
      split_ifs at step with prepared
      obtain ⟨k, -, stored⟩ := Option.bind_eq_some_iff.mp step
      obtain ⟨i, rfl⟩ := storePacket_cases stored
      exact nothing (reading.congr (.of_place rfl rfl rfl rfl rfl (by rw [prepared]; decide) (by simp)))
  | storeStatus =>
      obtain ⟨i, last, place, rfl⟩ := storeStatus_cases (b := b) step
      refine nothing (reading.congr (.of_place rfl rfl rfl rfl rfl (by rw [place]; simp) ?_))
      cases last <;> simp [MbedEthernet.storeStatus]
  | handOver =>
      dsimp only at step
      split_ifs at step with prepared
      obtain ⟨k, -, rfl⟩ := Option.map_eq_some_iff.mp step
      exact nothing (reading.congr (.of_place rfl rfl rfl rfl rfl (by rw [prepared]; decide) (by simp)))

/-- **What `mbed_eth_get_byte` returns.** In every run in which no frame is looked for while a buffer is given back, the
frames that arrived are some that were processed, followed by those behind the current one; and the bytes that were
returned, followed by those left of the current frame, are the bytes that the processed frames bring, in order.
-/
theorem bytes_read {events : List Event} (initial : Initial b s)
    (run : Run (fun s event s' => Step b s event s' ∧ Undisturbed s event) s events s')
    : ∃ processed, events.filterMap arrival? = processed ++ behind s'
        ∧ s'.returned.reduceOption ++ unread s' = processed.flatMap (brought b) := by
  have reading : Reading b (events.filterMap arrival?) s' := by
    refine run.invariant_history (fun past s => Reading b (past.filterMap arrival?) s) ?_ ?_
    · rintro past s event s' reading ⟨step, undisturbed⟩
      have next := reading.step step undisturbed
      rw [List.filterMap_append]
      cases arrival : arrival? event <;> simpa [arrival] using next
    · refine ⟨fun packet own => ?_, fun giving => ?_, [], ?_, ?_⟩
      · exact absurd (initial.currentRxFrame.symm.trans own) (Option.some_ne_none _).symm
      · rw [initial.place] at giving
        cases giving
      · rw [behind, if_pos ⟨initial.currentRxFrame, by rw [initial.place]; exact (fun giving => by cases giving)⟩,
          initial.rxQueue]
        rfl
      · rw [initial.returned, unread, initial.currentRxFrame]
        rfl
  exact reading.taken

/-- A frame arrives and is read. -/
def readFrame : List Event :=
  [.arrives (rxPacket 0 bareHeader), .irq true false] ++ List.replicate 20 .getByte ++ [.giveBack]

/-- The bytes of its IP header. -/
theorem bytes_read_frame
    : ∃ s processed, Run (fun s event s' => Step mbedBoard s event s' ∧ Undisturbed s event) bootEthernet readFrame s
        ∧ readFrame.filterMap arrival? = processed ++ behind s
        ∧ s.returned.reduceOption ++ unread s = processed.flatMap (brought mbedBoard)
        ∧ s.returned.reduceOption = bareHeader.drop 14 := by
  have checked : (runChecked (next mbedBoard) Undisturbed readFrame bootEthernet).map (·.returned.reduceOption)
      = some (bareHeader.drop 14) := by
    decide +kernel
  obtain ⟨s, ran, bytes⟩ := Option.map_eq_some_iff.mp checked
  have run := Run.of_checked ran
  obtain ⟨processed, arrived, read⟩ := bytes_read bootEthernet_initial run
  exact ⟨s, processed, run, arrived, read, bytes⟩

/-- An interrupt while the buffer is given back: the frame is found again, and its first byte is read without it. -/
example
    : (runChecked (next mbedBoard) (fun _ _ => True)
        (readFrame.dropLast ++ [.irq true false, .giveBack, .getByte]) bootEthernet).map
          (·.returned.reduceOption.drop 20)
      = some [2] := by
  decide +kernel

end Smews.Targets
