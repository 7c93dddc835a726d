import Smews.Targets.EthernetHeaders

/-! The packets that the controller transmits. Those of the main program leave in order and unchanged, when no
interrupt crosses the stores that prepare them.
-/

namespace Smews.Targets

open Smews.Core ByteMemory Runs MbedEthernet

variable {b : Board} {s s' : MbedEthernet}

--------------------------------------------------
-- Frames
--------------------------------------------------

/-- The payload of a transmitted frame, if it has one in a fragment of its own. -/
def payload? : List (Option (List UInt8)) → Option (List UInt8)
  | [some _, some payload] => some payload
  | _ => none

--------------------------------------------------
-- The queue of the controller
--------------------------------------------------

/-- The descriptors of the controller hold the frames of some packets, with replies to ARP requests in between. -/
inductive Queued (s : MbedEthernet) : List Nat → List (List UInt8) → Prop
  | nil : Queued s [] []
  | reply {i : Nat} {queue : List Nat} {payloads : List (List UInt8)} (last : (s.descriptors i).last = true)
    (other : ∀ j, (s.descriptors i).packet ≠ some (.txBuffer j)) (rest : Queued s queue payloads)
    : Queued s (i :: queue) payloads
  | packet {i j k n : Nat} {queue : List Nat} {payloads : List (List UInt8)}
    (header : s.descriptors i = ⟨some .ethernetHeader, protoMacHlen, false, true⟩)
    (data : s.descriptors j = ⟨some (.txBuffer k), n, true, true⟩) (rest : Queued s queue payloads)
    : Queued s (i :: j :: queue) (bytesAt (s.txBuffers k).buff 0 n :: payloads)

theorem Queued.congr {queue : List Nat} {payloads : List (List UInt8)} (queued : Queued s queue payloads)
    (descriptors : ∀ i ∈ queue, s'.descriptors i = s.descriptors i
      ∨ (s.descriptors i).beingSent = false ∧ s'.descriptors i = { s.descriptors i with packet := none })
    (buff : ∀ i ∈ queue, ∀ k, (s.descriptors i).packet = some (.txBuffer k) →
      (s'.txBuffers k).buff = (s.txBuffers k).buff)
    : Queued s' queue payloads := by
  induction queued with
  | nil => exact .nil
  | @reply i queue payloads last other rest ih =>
      have rest' := ih (fun i mem => descriptors i (List.mem_cons_of_mem _ mem))
        (fun i mem => buff i (List.mem_cons_of_mem _ mem))
      rcases descriptors i List.mem_cons_self with same | ⟨-, collected⟩
      · exact .reply (by rw [same]; exact last) (by rw [same]; exact other) rest'
      · refine .reply (by rw [collected]; exact last) (fun j => ?_) rest'
        rw [collected]
        exact (Option.some_ne_none _).symm
  | @packet i j k n queue payloads header data rest ih =>
      have rest' := ih (fun i mem => descriptors i (List.mem_cons_of_mem _ (List.mem_cons_of_mem _ mem)))
        (fun i mem => buff i (List.mem_cons_of_mem _ (List.mem_cons_of_mem _ mem)))
      have header' : s'.descriptors i = s.descriptors i := by
        rcases descriptors i List.mem_cons_self with same | ⟨free, -⟩
        · exact same
        · rw [header] at free
          cases free
      have data' : s'.descriptors j = s.descriptors j := by
        rcases descriptors j (List.mem_cons_of_mem _ List.mem_cons_self) with same | ⟨free, -⟩
        · exact same
        · rw [data] at free
          cases free
      have bytes := buff j (List.mem_cons_of_mem _ List.mem_cons_self) k (by rw [data])
      rw [← bytes]
      exact .packet (header'.trans header) (data'.trans data) rest'

theorem Queued.set {queue : List Nat} {payloads : List (List UInt8)} {i : Nat} (queued : Queued s queue payloads)
    (absent : i ∉ queue) (d : TxDescriptor)
    : Queued (s.setDescriptor i d) queue payloads :=
  queued.congr (fun _ mem => .inl (Function.update_of_ne (ne_of_mem_of_not_mem mem absent) _ _)) fun _ _ _ _ => rfl

/-- Frames behind the others. -/
theorem Queued.append {queue queue' : List Nat} {payloads payloads' : List (List UInt8)}
    (queued : Queued s queue payloads) (last : Queued s queue' payloads')
    : Queued s (queue ++ queue') (payloads ++ payloads') := by
  induction queued with
  | nil => exact last
  | reply ends other _ ih => exact .reply ends other ih
  | packet header data _ ih => exact .packet header data ih

/-- The descriptor of the second fragment of a packet. -/
def payloadIndex (s : MbedEthernet) : Nat := (s.txProduceIndex + 1) % txDescriptors

/-- Whether the current buffer was stored into that descriptor. -/
def payloadStored : MbedPlace → Bool
  | .storing _ last => last
  | .payloadPrepared => true
  | _ => false

/-- The buffers that descriptors point to are in use, each for one of them, and the current one is for none but the
descriptor that is being prepared.
-/
structure Owned (s : MbedEthernet) : Prop where
  inUse : ∀ i k, (s.descriptors i).packet = some (.txBuffer k) → (s.txBuffers k).inUse = true
  alone : ∀ i j k, (s.descriptors i).packet = some (.txBuffer k) → (s.descriptors j).packet = some (.txBuffer k) → i = j
  other : ∀ i k, (s.descriptors i).packet = some (.txBuffer k) → s.currentBuffer = some k →
    payloadStored s.place ∧ i = payloadIndex s
  current : ∀ k, s.currentBuffer = some k → (s.txBuffers k).inUse = true

/-- The first fragment of a packet is ready. -/
structure HeaderPrepared (s : MbedEthernet) : Prop where
  absent : s.txProduceIndex ∉ s.txQueue
  header : s.descriptors s.txProduceIndex = ⟨some .ethernetHeader, protoMacHlen, false, true⟩

/-- What is in the descriptors of a packet on the way through `mbed_eth_output_done`. -/
inductive Preparing (s : MbedEthernet) : Prop
  | idle (place : s.place.preparing = false)
  | header (place : s.place = .storing s.txProduceIndex false) (absent : s.txProduceIndex ∉ s.txQueue)
    (packet : (s.descriptors s.txProduceIndex).packet = some .ethernetHeader)
  | headerPrepared (place : s.place = .headerPrepared) (ready : HeaderPrepared s)
  | payload (place : s.place = .storing (payloadIndex s) true) (ready : HeaderPrepared s)
    (absent : payloadIndex s ∉ s.txQueue) (k : Nat) (own : s.currentBuffer = some k)
    (packet : (s.descriptors (payloadIndex s)).packet = some (.txBuffer k))
  | payloadPrepared (place : s.place = .payloadPrepared) (ready : HeaderPrepared s)
    (absent : payloadIndex s ∉ s.txQueue) (k : Nat) (own : s.currentBuffer = some k)
    (data : s.descriptors (payloadIndex s) = ⟨some (.txBuffer k), s.currentBufferSize, true, true⟩)

/-- The packets that were handed over are those that were transmitted and those that the controller has. -/
structure Sending (s : MbedEthernet) (done waiting : List Output) : Prop where
  outputs : s.outputs = done ++ waiting
  sent : s.sent.filterMap payload? = done.map Output.payload
  queued : Queued s s.txQueue (waiting.map Output.payload)
  distinct : s.txQueue.Nodup
  owned : Owned s
  index : s.txProduceIndex < txDescriptors
  preparing : Preparing s

section Steps

variable {done waiting : List Output}

theorem payloadStored_preparing {place : MbedPlace} (idle : place.preparing = false) : payloadStored place = false := by
  cases place <;> first | rfl | cases idle

theorem Owned.congr (owned : Owned s) (descriptors : s'.descriptors = s.descriptors)
    (inUse : ∀ k, (s'.txBuffers k).inUse = (s.txBuffers k).inUse) (current : s'.currentBuffer = s.currentBuffer)
    (place : payloadStored s.place → payloadStored s'.place ∧ s'.txProduceIndex = s.txProduceIndex)
    : Owned s' := by
  obtain ⟨used, alone, other, own⟩ := owned
  constructor
  · intro i k points
    rw [inUse]
    exact used i k (by rwa [descriptors] at points)
  · intro i j k first second
    rw [descriptors] at first second
    exact alone i j k first second
  · intro i k points own'
    rw [descriptors] at points
    rw [current] at own'
    obtain ⟨stored, here⟩ := other i k points own'
    obtain ⟨stored', index⟩ := place stored
    exact ⟨stored', by rw [here, payloadIndex, payloadIndex, index]⟩
  · intro k own'
    rw [inUse]
    exact own k (by rwa [current] at own')

/-- The descriptors that are being prepared stay. -/
theorem Preparing.congr (preparing : Preparing s) (place : s'.place = s.place)
    (index : s'.txProduceIndex = s.txProduceIndex) (txQueue : ∀ i ∈ s'.txQueue, i ∈ s.txQueue)
    (descriptors : ∀ i ∉ s.txQueue, s.place.isStoring ∨ (s.descriptors i).beingSent →
      s'.descriptors i = s.descriptors i)
    (current : s'.currentBuffer = s.currentBuffer) (size : s'.currentBufferSize = s.currentBufferSize)
    : Preparing s' := by
  have payload : payloadIndex s' = payloadIndex s := by rw [payloadIndex, payloadIndex, index]
  have header (ready : HeaderPrepared s) : HeaderPrepared s' := by
    constructor
    · rw [index]
      exact fun mem => ready.absent (txQueue _ mem)
    · rw [index, descriptors _ ready.absent (.inr (by rw [ready.header]))]
      exact ready.header
  cases preparing with
  | idle idle => exact .idle (by rwa [place])
  | header here absent packet =>
      refine .header (by rw [place, here, index]) ?_ ?_
      · rw [index]
        exact fun mem => absent (txQueue _ mem)
      · rw [index, descriptors _ absent (.inl (by rw [here]; rfl))]
        exact packet
  | headerPrepared here ready => exact .headerPrepared (by rw [place, here]) (header ready)
  | payload here ready absent k own packet =>
      refine .payload (by rw [place, here, payload]) (header ready) ?_ k (current.trans own) ?_
      · rw [payload]
        exact fun mem => absent (txQueue _ mem)
      · rw [payload, descriptors _ absent (.inl (by rw [here]; rfl))]
        exact packet
  | payloadPrepared here ready absent k own data =>
      refine .payloadPrepared (by rw [place, here]) (header ready) ?_ k (current.trans own) ?_
      · rw [payload]
        exact fun mem => absent (txQueue _ mem)
      · rw [payload, descriptors _ absent (.inr (by rw [data])), size]
        exact data

/-- A step that leaves the output alone. -/
theorem Sending.congr (sending : Sending s done waiting) (descriptors : s'.descriptors = s.descriptors)
    (txBuffers : s'.txBuffers = s.txBuffers) (current : s'.currentBuffer = s.currentBuffer)
    (size : s'.currentBufferSize = s.currentBufferSize)
    (txQueue : s'.txQueue = s.txQueue) (index : s'.txProduceIndex = s.txProduceIndex) (outputs : s'.outputs = s.outputs)
    (sent : s'.sent = s.sent)
    (place : s'.place = s.place ∨ s.place.preparing = false ∧ s'.place.preparing = false)
    : Sending s' done waiting where
  outputs := outputs.trans sending.outputs
  sent := by rw [sent, sending.sent]
  queued := by
    rw [txQueue]
    exact sending.queued.congr (fun i _ => .inl (congrFun descriptors i)) (fun _ _ k _ => by rw [txBuffers])
  distinct := by
    rw [txQueue]
    exact sending.distinct
  owned := by
    refine sending.owned.congr descriptors (fun k => by rw [txBuffers]) current fun stored => ?_
    rcases place with same | ⟨idle, -⟩
    · exact ⟨by rwa [same], index⟩
    · rw [payloadStored_preparing idle] at stored
      cases stored
  index := by
    rw [index]
    exact sending.index
  preparing := by
    rcases place with same | ⟨-, idle⟩
    · exact sending.preparing.congr same index (fun i mem => txQueue ▸ mem) (fun i _ _ => congrFun descriptors i)
        current size
    · exact .idle idle

theorem Sending.learn (sending : Sending s done waiting) (ip : UInt32) (linkLayer : EthAddr)
    : Sending (s.learn b ip linkLayer) done waiting :=
  sending.congr rfl rfl rfl rfl rfl rfl rfl rfl (.inl rfl)

/-- A descriptor that the controller does not have gets another content. -/
theorem Owned.set (owned : Owned s) (i : Nat) {d : TxDescriptor}
    (other : ∀ k, d.packet = some (.txBuffer k) → (s.descriptors i).packet = some (.txBuffer k))
    : Owned (s.setDescriptor i d) := by
  have back (j k : Nat) (points : ((s.setDescriptor i d).descriptors j).packet = some (.txBuffer k))
      : (s.descriptors j).packet = some (.txBuffer k) := by
    by_cases here : j = i
    · subst here
      simp only [setDescriptor, Function.update_self] at points
      exact other k points
    · simpa [setDescriptor, here] using points
  obtain ⟨used, alone, free, own⟩ := owned
  exact ⟨
    fun j k points => used j k (back j k points),
    fun j j' k first second => alone j j' k (back j k first) (back j' k second),
    fun j k points => free j k (back j k points), own
  ⟩

theorem Owned.idle (owned : Owned s) (idle : s.place.preparing = false) {i k : Nat}
    (points : (s.descriptors i).packet = some (.txBuffer k))
    : s.currentBuffer ≠ some k := by
  intro own
  have stored := (owned.other i k points own).1
  rw [payloadStored_preparing idle] at stored
  cases stored

theorem Sending.processArp (sending : Sending s done waiting) (idle : s.place.preparing = false) (eth : EthHead)
    (packet : RxPacket)
    : Sending (s.processArp b eth packet) done waiting := by
  unfold MbedEthernet.processArp
  dsimp only
  split_ifs with foreign request ready
  · exact sending
  · refine Sending.learn ?_ _ _
    have absent : s.txProduceIndex ∉ s.txQueue := b.ready_free _ _ ready
    obtain ⟨outputs, sent, queued, distinct, owned, index, -⟩ := sending
    refine ⟨outputs, sent, ?_, ?_, ?_, Nat.mod_lt _ (by decide), .idle idle⟩
    · have old := queued.set absent (d := { s.descriptors s.txProduceIndex with
        packet := some .arpReplyBuffer, size := protoMacHlen + protoArpHlen, last := true })
      have new : Queued (s.setDescriptor s.txProduceIndex { s.descriptors s.txProduceIndex with
          packet := some .arpReplyBuffer, size := protoMacHlen + protoArpHlen, last := true })
          [s.txProduceIndex] [] := by
        refine .reply ?_ (fun j => ?_) .nil <;> simp [setDescriptor]
      have both := old.append new
      rw [List.append_nil] at both
      exact both.congr (fun _ _ => .inl rfl) fun _ _ _ _ => rfl
    · exact List.nodup_append.mpr ⟨distinct, List.nodup_singleton _, fun i mem j own same => by
        rw [List.mem_singleton] at own
        exact absent (own ▸ same ▸ mem)⟩
    · refine (owned.set s.txProduceIndex fun k points => ?_).congr rfl (fun _ => rfl) rfl fun stored => ?_
      · cases points
      · have none := payloadStored_preparing idle
        rw [show payloadStored s.place = true from stored] at none
        cases none
  · exact sending
  · exact sending.learn _ _

theorem Sending.processInput (sending : Sending s done waiting) (idle : s.place.preparing = false) (packet : RxPacket)
    : Sending (s.processInput b packet).2 done waiting := by
  have learned := sending.learn (b := b) (protoIpGetSrc fun i => packet.bytes (protoMacHlen + i))
    (protoEthDemangle packet.bytes).src
  unfold MbedEthernet.processInput
  dsimp only
  split_ifs
  · exact sending
  · exact sending.processArp idle _ packet
  · exact sending
  · exact sending
  all_goals exact learned.congr rfl rfl rfl rfl rfl rfl rfl rfl (.inl rfl)

theorem processInput_place (packet : RxPacket) (s : MbedEthernet) : (s.processInput b packet).2.place = s.place := by
  unfold MbedEthernet.processInput MbedEthernet.processArp
  dsimp only
  split_ifs <;> rfl

theorem Sending.processRx (n : Nat) (sending : Sending s done waiting) (idle : s.place.preparing = false)
    : Sending (s.processRx b n) done waiting := by
  induction n generalizing s with
  | zero => exact sending
  | succ n ih =>
      unfold MbedEthernet.processRx
      split
      · exact sending
      · rename_i packet rxQueue _
        have kept := sending.processInput (b := b) idle packet
        have place := processInput_place (b := b) packet s
        cases process : s.processInput b packet with
        | mk free t =>
        rw [process] at kept place
        cases free with
        | true =>
            refine ih (kept.congr rfl rfl rfl rfl rfl rfl rfl rfl (.inl rfl)) ?_
            rw [← idle]
            exact congrArg _ place
        | false => exact kept

theorem processRx_place (n : Nat) (s : MbedEthernet) : (s.processRx b n).place = s.place := by
  induction n generalizing s with
  | zero => rfl
  | succ n ih =>
      unfold MbedEthernet.processRx
      split
      · rfl
      · rename_i packet rxQueue _
        have place := processInput_place (b := b) packet s
        cases process : s.processInput b packet with
        | mk free t =>
        rw [process] at place
        cases free with
        | true => exact (ih { t with rxQueue }).trans place
        | false => exact place

/-- Frames that bring no reply about leave the output alone. -/
structure Silent (s s' : MbedEthernet) : Prop where
  descriptors : s'.descriptors = s.descriptors
  txBuffers : s'.txBuffers = s.txBuffers
  currentBuffer : s'.currentBuffer = s.currentBuffer
  currentBufferSize : s'.currentBufferSize = s.currentBufferSize
  txQueue : s'.txQueue = s.txQueue
  txProduceIndex : s'.txProduceIndex = s.txProduceIndex
  outputs : s'.outputs = s.outputs
  sent : s'.sent = s.sent
  place : s'.place = s.place

theorem Silent.trans {s'' : MbedEthernet} (first : Silent s s') (second : Silent s' s'') : Silent s s'' :=
  ⟨
    second.descriptors.trans first.descriptors, second.txBuffers.trans first.txBuffers,
    second.currentBuffer.trans first.currentBuffer, second.currentBufferSize.trans first.currentBufferSize,
    second.txQueue.trans first.txQueue, second.txProduceIndex.trans first.txProduceIndex,
    second.outputs.trans first.outputs, second.sent.trans first.sent, second.place.trans first.place
  ⟩

theorem Sending.silent (sending : Sending s done waiting) (silent : Silent s s') : Sending s' done waiting :=
  sending.congr silent.descriptors silent.txBuffers silent.currentBuffer silent.currentBufferSize silent.txQueue
    silent.txProduceIndex silent.outputs silent.sent (.inl silent.place)

/-- A frame brings a reply about, or leaves the output alone. -/
theorem processInput_silent (packet : RxPacket) (s : MbedEthernet)
    : Silent s (s.processInput b packet).2 ∨ ∃ i, (s.processInput b packet).2.txQueue = s.txQueue ++ [i] := by
  unfold MbedEthernet.processInput MbedEthernet.processArp
  dsimp only
  split_ifs
  case pos => exact .inl ⟨rfl, rfl, rfl, rfl, rfl, rfl, rfl, rfl, rfl⟩
  all_goals first
    | exact .inl ⟨rfl, rfl, rfl, rfl, rfl, rfl, rfl, rfl, rfl⟩
    | exact .inr ⟨_, rfl⟩

theorem processRx_silent (n : Nat) (s : MbedEthernet)
    : ∃ replies, (s.processRx b n).txQueue = s.txQueue ++ replies ∧ (replies = [] → Silent s (s.processRx b n)) := by
  induction n generalizing s with
  | zero => exact ⟨[], (List.append_nil _).symm, fun _ => ⟨rfl, rfl, rfl, rfl, rfl, rfl, rfl, rfl, rfl⟩⟩
  | succ n ih =>
      unfold MbedEthernet.processRx
      split
      · exact ⟨[], (List.append_nil _).symm, fun _ => ⟨rfl, rfl, rfl, rfl, rfl, rfl, rfl, rfl, rfl⟩⟩
      · rename_i packet rxQueue _
        have first := processInput_silent (b := b) packet s
        cases process : s.processInput b packet with
        | mk free t =>
        rw [process] at first
        cases free with
        | true =>
            obtain ⟨replies, queue, silent⟩ := ih { t with rxQueue }
            rcases first with kept | ⟨i, reply⟩
            · refine ⟨replies, queue.trans (by rw [kept.txQueue]), fun none => (kept.trans ?_).trans (silent none)⟩
              exact ⟨rfl, rfl, rfl, rfl, rfl, rfl, rfl, rfl, rfl⟩
            · refine ⟨i :: replies, ?_, fun none => by cases none⟩
              rw [queue, ← List.singleton_append, ← List.append_assoc, ← reply]
        | false =>
            rcases first with kept | ⟨i, reply⟩
            · exact ⟨[], by rw [List.append_nil]; exact kept.txQueue, fun _ => kept⟩
            · exact ⟨[i], reply, fun none => by cases none⟩

/-- A descriptor with the current buffer is marked before the interrupt handler sees it. -/
theorem Sending.uncollected (sending : Sending s done waiting) (marked : s.place.isStoring = false) {i k : Nat}
    (collected : (s.descriptors i).beingSent = false) (points : (s.descriptors i).packet = some (.txBuffer k))
    : s.currentBuffer ≠ some k := by
  intro own
  obtain ⟨stored, rfl⟩ := sending.owned.other i k points own
  cases sending.preparing with
  | idle idle =>
      rw [payloadStored_preparing idle] at stored
      cases stored
  | header place _ _ =>
      rw [place] at stored
      cases stored
  | headerPrepared place _ =>
      rw [place] at stored
      cases stored
  | payload place _ _ _ _ _ =>
      rw [place] at marked
      cases marked
  | payloadPrepared _ _ _ _ _ data =>
      rw [data] at collected
      cases collected

/-- The collection of a descriptor frees no buffer that the controller has. -/
theorem Sending.garbage (sending : Sending s done waiting) (marked : s.place.isStoring = false) (i : Nat)
    : Sending (s.garbage i) done waiting := by
  unfold MbedEthernet.garbage
  dsimp only
  split_ifs with sent
  · exact sending
  · have collected : (s.descriptors i).beingSent = false := Bool.eq_false_iff.mpr sent
    have uncollected {k : Nat} := sending.uncollected marked (k := k) collected
    obtain ⟨outputs, sent, queued, distinct, owned, index, preparing⟩ := sending
    have preparing' {t : MbedEthernet} (descriptors : t.descriptors
          = Function.update s.descriptors i { s.descriptors i with packet := none })
        (place : t.place = s.place) (index : t.txProduceIndex = s.txProduceIndex) (txQueue : t.txQueue = s.txQueue)
        (current : t.currentBuffer = s.currentBuffer) (size : t.currentBufferSize = s.currentBufferSize)
        : Preparing t := by
      refine preparing.congr place index (fun j mem => txQueue ▸ mem) (fun j _ kept => ?_) current size
      have other : j ≠ i := by
        rintro rfl
        rw [marked, collected] at kept
        simp at kept
      rw [descriptors, Function.update_of_ne other]
    have queued' {t : MbedEthernet} (descriptors : t.descriptors
          = Function.update s.descriptors i { s.descriptors i with packet := none })
        (buff : ∀ k, (t.txBuffers k).buff = (s.txBuffers k).buff)
        : Queued t s.txQueue (waiting.map Output.payload) := by
      refine queued.congr (fun j _ => ?_) fun _ _ k _ => buff k
      by_cases here : j = i
      · subst here
        exact .inr ⟨collected, by rw [descriptors, Function.update_self]⟩
      · exact .inl (by rw [descriptors, Function.update_of_ne here])
    split
    · exact ⟨outputs, sent, queued, distinct, owned, index, preparing⟩
    · rename_i j points
      refine ⟨outputs, sent, queued' rfl fun k => ?_, distinct, ?_, index, preparing' rfl rfl rfl rfl rfl rfl⟩
      · by_cases here : k = j
        · subst here
          simp
        · simp [here]
      · have back (i' k : Nat) (points' : ((s.setDescriptor i
            { s.descriptors i with packet := none }).descriptors i').packet = some (.txBuffer k))
            : i' ≠ i ∧ (s.descriptors i').packet = some (.txBuffer k) := by
          by_cases here : i' = i
          · subst here
            simp [setDescriptor] at points'
          · exact ⟨here, by simpa [setDescriptor, here] using points'⟩
        have kept (k : Nat) (used : (s.txBuffers k).inUse = true) (ne : k ≠ j)
            : (Function.update s.txBuffers j { s.txBuffers j with inUse := false } k).inUse = true := by
          rwa [Function.update_of_ne ne]
        constructor
        · intro i' k points'
          obtain ⟨ne, points''⟩ := back i' k points'
          exact kept k (owned.inUse i' k points'') fun same => ne (owned.alone i' i k points'' (same ▸ points))
        · intro i' i'' k first second
          exact owned.alone i' i'' k (back i' k first).2 (back i'' k second).2
        · intro i' k points' own
          exact owned.other i' k (back i' k points').2 own
        · intro k own
          exact kept k (owned.current k own) fun same => uncollected (same ▸ points) own
    · refine ⟨outputs, sent, queued' rfl fun _ => rfl, distinct, ?_, index, preparing' rfl rfl rfl rfl rfl rfl⟩
      exact (owned.set i fun k points => by cases points).congr rfl (fun _ => rfl) rfl fun stored => ⟨stored, rfl⟩

theorem garbage_frame (s : MbedEthernet) (i : Nat)
    : (s.garbage i).place = s.place ∧ (s.garbage i).txQueue = s.txQueue := by
  unfold MbedEthernet.garbage
  dsimp only
  split_ifs
  · exact ⟨rfl, rfl⟩
  · split <;> exact ⟨rfl, rfl⟩

theorem garbageTxBuffers_frame (s : MbedEthernet)
    : s.garbageTxBuffers.place = s.place ∧ s.garbageTxBuffers.txQueue = s.txQueue := by
  unfold MbedEthernet.garbageTxBuffers
  generalize List.range txDescriptors = is
  induction is generalizing s with
  | nil => exact ⟨rfl, rfl⟩
  | cons i is ih =>
      obtain ⟨place, queue⟩ := garbage_frame s i
      exact ⟨(ih (s.garbage i)).1.trans place, (ih (s.garbage i)).2.trans queue⟩

theorem Sending.garbageTxBuffers (sending : Sending s done waiting) (marked : s.place.isStoring = false)
    : Sending s.garbageTxBuffers done waiting := by
  unfold MbedEthernet.garbageTxBuffers
  generalize List.range txDescriptors = is
  induction is generalizing s with
  | nil => exact sending
  | cons i is ih => exact ih (sending.garbage marked i) (by rwa [(garbage_frame s i).1])

/-- No interrupt crosses the preparation of a packet: no reply to an ARP request is handed over before the packet is,
and no buffers are collected between the stores of a fragment.
-/
def Uncrossed (b : Board) (s : MbedEthernet) : Event → Prop
  | .irq rxDone txDone =>
      (s.place.preparing → (s.ethIrqHandler b rxDone txDone).txQueue = s.txQueue)
        ∧ (txDone → s.place.isStoring = false)
  | _ => True

instance (s : MbedEthernet) (event : Event) : Decidable (Uncrossed b s event) :=
  match event with
  | .irq _ _ => inferInstanceAs (Decidable (_ ∧ _))
  | .arrives _ | .transmits | .getByte | .giveBack | .prepareOutput | .putNbytes _ | .fillHeader _ | .storeHeader
  | .storePayload | .storeStatus | .handOver => inferInstanceAs (Decidable True)

theorem Sending.irq (sending : Sending s done waiting) {rxDone txDone : Bool}
    (uncrossed : Uncrossed b s (.irq rxDone txDone))
    : Sending (s.ethIrqHandler b rxDone txDone) done waiting := by
  obtain ⟨noReply, marked⟩ := uncrossed
  have handler : s.ethIrqHandler b rxDone txDone
      = if txDone then (if rxDone then s.processRx b txDescriptors else s).garbageTxBuffers
        else if rxDone then s.processRx b txDescriptors else s := rfl
  have queue : (s.ethIrqHandler b rxDone txDone).txQueue
      = (if rxDone then s.processRx b txDescriptors else s).txQueue := by
    rw [handler]
    split_ifs <;> first | exact (garbageTxBuffers_frame _).2 | rfl
  have place : (if rxDone then s.processRx b txDescriptors else s).place = s.place := by
    split_ifs
    · exact processRx_place _ s
    · rfl
  have received : Sending (if rxDone then s.processRx b txDescriptors else s) done waiting := by
    cases rxDone with
    | false => exact sending
    | true =>
        rw [if_pos rfl] at queue ⊢
        cases idle : s.place.preparing with
        | false => exact sending.processRx txDescriptors idle
        | true =>
            obtain ⟨replies, replied, silent⟩ := processRx_silent (b := b) txDescriptors s
            refine sending.silent (silent ?_)
            rw [queue, replied] at noReply
            exact List.append_right_eq_self.mp (noReply idle)
  rw [handler]
  cases txDone with
  | false => exact received
  | true =>
      rw [if_pos rfl]
      exact received.garbageTxBuffers (by rw [place]; exact marked rfl)

/-- The buffer of a new packet is none that the controller has. -/
theorem Sending.getTxBuffer (sending : Sending s done waiting) (idle : s.place.preparing = false) {k : Nat}
    (get : s.getTxBuffer = some (k, s'))
    : Sending { s' with currentBuffer := some k, currentBufferSize := 0 } done waiting := by
  obtain ⟨j, found, same⟩ := Option.map_eq_some_iff.mp get
  cases same
  have free : (s.txBuffers k).inUse = false := by simpa using List.find?_some found
  obtain ⟨outputs, sent, queued, distinct, owned, index, -⟩ := sending
  refine ⟨outputs, sent, ?_, distinct, ?_, index, .idle idle⟩
  · refine queued.congr (fun _ _ => .inl rfl) fun _ _ j _ => ?_
    by_cases here : j = k
    · subst here
      simp
    · simp [here]
  · constructor
    · intro i j points
      have used := owned.inUse i j points
      by_cases here : j = k
      · subst here
        simp
      · simpa [here] using used
    · exact owned.alone
    · intro i j points own
      cases own
      rw [owned.inUse i k points] at free
      cases free
    · intro j own
      cases own
      simp

theorem Sending.prepareOutput (sending : Sending s done waiting) (outside : s.place = .outside)
    (prepare : s.prepareOutput = some s')
    : Sending s' done waiting := by
  unfold MbedEthernet.prepareOutput at prepare
  split_ifs at prepare
  · cases prepare
    exact sending
  · obtain ⟨⟨k, t⟩, get, same⟩ := Option.map_eq_some_iff.mp prepare
    cases same
    rcases Option.or_eq_some_iff.mp get with get | ⟨-, get⟩
    · exact sending.getTxBuffer (by rw [outside]; rfl) get
    · refine (sending.garbageTxBuffers (by rw [outside]; rfl)).getTxBuffer ?_ get
      rw [(garbageTxBuffers_frame s).1, outside]
      rfl

/-- Bytes for the current buffer change no packet of the controller. -/
theorem Sending.putNbytes (sending : Sending s done waiting) {bytes : List UInt8} (idle : s.place.preparing = false)
    (put : s.putNbytes b bytes = some s')
    : Sending s' done waiting := by
  unfold MbedEthernet.putNbytes at put
  split at put
  · cases put
    exact sending
  · rename_i k own
    dsimp only at put
    split_ifs at put
    cases put
    obtain ⟨outputs, sent, queued, distinct, owned, index, -⟩ := sending
    refine ⟨outputs, sent, ?_, distinct, owned.congr rfl (fun j => ?_) rfl fun stored => ⟨stored, rfl⟩, index,
      .idle idle⟩
    · refine queued.congr (fun _ _ => .inl rfl) fun i _ j points => ?_
      have ne : j ≠ k := by
        rintro rfl
        exact owned.idle idle points own
      simp [ne]
    · by_cases here : j = k
      · subst here
        simp
      · simp [here]

/-- The packet of a fragment is stored into a descriptor that the controller does not have. -/
theorem Sending.storeHeader (sending : Sending s done waiting) (filled : s.place = .filled)
    (stored : s.storePacket b .ethernetHeader 0 false = some s')
    : Sending s' done waiting := by
  have idle : s.place.preparing = false := by
    rw [filled]
    rfl
  unfold MbedEthernet.storePacket at stored
  dsimp only at stored
  split_ifs at stored with ready
  cases stored
  obtain ⟨outputs, sent, queued, distinct, owned, index, -⟩ := sending
  rw [Nat.add_zero, Nat.mod_eq_of_lt index] at ready ⊢
  have absent : s.txProduceIndex ∉ s.txQueue := b.ready_free _ _ ready
  refine ⟨outputs, sent, ?_, distinct, ?_, index, ?_⟩
  · exact (queued.set absent _).congr (fun _ _ => .inl rfl) fun _ _ _ _ => rfl
  · refine (owned.set s.txProduceIndex fun k points => ?_).congr rfl (fun _ => rfl) rfl fun stored => ?_
    · cases points
    · have none := payloadStored_preparing idle
      rw [show payloadStored s.place = true from stored] at none
      cases none
  · refine .header rfl absent ?_
    simp [setDescriptor]

theorem Sending.storePayload (sending : Sending s done waiting) (prepared : s.place = .headerPrepared) {k : Nat}
    (own : s.currentBuffer = some k) (stored : s.storePacket b (.txBuffer k) 1 true = some s')
    : Sending s' done waiting := by
  have none {i : Nat} : (s.descriptors i).packet ≠ some (.txBuffer k) := by
    intro points
    have stored := (sending.owned.other i k points own).1
    rw [prepared] at stored
    cases stored
  have header : HeaderPrepared s := by
    cases sending.preparing with
    | idle idle =>
        rw [prepared] at idle
        cases idle
    | headerPrepared _ ready => exact ready
    | header place _ _ | payload place _ _ _ _ _ | payloadPrepared place _ _ _ _ _ =>
        rw [prepared] at place
        cases place
  unfold MbedEthernet.storePacket at stored
  dsimp only at stored
  split_ifs at stored with ready
  cases stored
  obtain ⟨outputs, sent, queued, distinct, owned, index, -⟩ := sending
  have absent : payloadIndex s ∉ s.txQueue := b.ready_free _ _ ready
  have apart : s.txProduceIndex ≠ payloadIndex s := by
    unfold payloadIndex txDescriptors at *
    omega
  have points {i l : Nat} (points : ((s.setDescriptor (payloadIndex s) { s.descriptors (payloadIndex s) with
        packet := some (.txBuffer k) }).descriptors i).packet = some (.txBuffer l))
      : i = payloadIndex s ∧ l = k ∨ (s.descriptors i).packet = some (.txBuffer l) := by
    by_cases here : i = payloadIndex s
    · subst here
      simp only [setDescriptor, Function.update_self, Option.some.injEq, TxPointer.txBuffer.injEq] at points
      exact .inl ⟨rfl, points.symm⟩
    · exact .inr (by simpa [setDescriptor, here] using points)
  refine ⟨outputs, sent, ?_, distinct, ⟨?_, ?_, ?_, owned.current⟩, index, ?_⟩
  · exact (queued.set absent _).congr (fun _ _ => .inl rfl) fun _ _ _ _ => rfl
  · intro i l pointed
    rcases points pointed with ⟨-, rfl⟩ | old
    · exact owned.current l own
    · exact owned.inUse i l old
  · intro i j l one other
    rcases points one with ⟨rfl, rfl⟩ | one' <;> rcases points other with ⟨rfl, same⟩ | other'
    · rfl
    · exact absurd other' none
    · exact absurd (same ▸ one') none
    · exact owned.alone i j l one' other'
  · intro i l pointed own'
    rcases points pointed with ⟨here, -⟩ | old
    · exact ⟨rfl, here⟩
    · rw [show s.currentBuffer = some l from own'] at own
      cases own
      exact absurd old none
  · refine .payload rfl ⟨header.absent, ?_⟩ absent k own ?_
    · exact (Function.update_of_ne apart _ _).trans header.header
    · show (Function.update s.descriptors (payloadIndex s) _ (payloadIndex s)).packet = _
      rw [Function.update_self]

/-- A fragment is ready. -/
theorem Sending.storeStatus (sending : Sending s done waiting) {i : Nat} {last : Bool}
    (place : s.place = .storing i last)
    : Sending (s.storeStatus (if last then s.currentBufferSize else protoMacHlen) i last) done waiting := by
  obtain ⟨outputs, sent, queued, distinct, owned, index, preparing⟩ := sending
  have apart : s.txProduceIndex ≠ payloadIndex s := by
    unfold payloadIndex txDescriptors at *
    omega
  have others (absent : i ∉ s.txQueue)
      : Queued (s.storeStatus (if last then s.currentBufferSize else protoMacHlen) i last) s.txQueue
          (waiting.map Output.payload) :=
    (queued.set absent _).congr (fun _ _ => .inl rfl) fun _ _ _ _ => rfl
  have owned' : Owned (s.storeStatus (if last then s.currentBufferSize else protoMacHlen) i last) := by
    refine (owned.set i (d := { s.descriptors i with
      size := if last then s.currentBufferSize else protoMacHlen, last, beingSent := true })
      fun k points => points).congr rfl (fun _ => rfl) rfl fun stored => ⟨?_, rfl⟩
    rw [setDescriptor, place] at stored
    cases last with
    | false => cases stored
    | true => rfl
  cases preparing with
  | idle idle =>
      rw [place] at idle
      cases idle
  | header here absent packet =>
      rw [place] at here
      cases here
      refine ⟨outputs, sent, others absent, distinct, owned', index, .headerPrepared rfl ⟨absent, ?_⟩⟩
      exact (Function.update_self _ _ _).trans (by rw [packet]; rfl)
  | headerPrepared here _ | payloadPrepared here _ _ _ _ _ =>
      rw [place] at here
      cases here
  | payload here ready absent k own packet =>
      rw [place] at here
      cases here
      refine ⟨outputs, sent, others absent, distinct, owned', index,
        .payloadPrepared rfl ⟨ready.absent, ?_⟩ absent k own ?_⟩
      · exact (Function.update_of_ne apart _ _).trans ready.header
      · exact (Function.update_self _ _ _).trans (by rw [packet]; rfl)

/-- The controller gets a packet with its header. -/
theorem Sending.handOver (sending : Sending s done waiting) (prepared : s.place = .payloadPrepared)
    (handed : s.handOver = some s')
    : ∃ k, s.currentBuffer = some k ∧ Sending s' done (waiting ++ [{
        ip := s.filledFor.1
        heard := s.filledFor.2
        payload := bytesAt (s.txBuffers k).buff 0 s.currentBufferSize
      }]) := by
  obtain ⟨k, own, rfl⟩ := Option.map_eq_some_iff.mp handed
  refine ⟨k, own, ?_⟩
  obtain ⟨outputs, sent, queued, distinct, owned, index, preparing⟩ := sending
  have apart : s.txProduceIndex ≠ payloadIndex s := by
    unfold payloadIndex txDescriptors at *
    omega
  cases preparing with
  | idle idle =>
      rw [prepared] at idle
      cases idle
  | header place _ _ | headerPrepared place _ | payload place _ _ _ _ _ =>
      rw [prepared] at place
      cases place
  | payloadPrepared _ ready absent l own' data =>
      rw [own] at own'
      cases own'
      have new : Queued s [s.txProduceIndex, payloadIndex s] [bytesAt (s.txBuffers k).buff 0 s.currentBufferSize] :=
        .packet ready.header data .nil
      refine ⟨?_, sent, ?_, ?_, ⟨owned.inUse, owned.alone, ?_, ?_⟩, Nat.mod_lt _ (by decide), .idle rfl⟩
      · rw [← List.append_assoc, ← outputs]
      · rw [List.map_append]
        exact (queued.append new).congr (fun _ _ => .inl rfl) fun _ _ _ _ => rfl
      · refine List.nodup_append.mpr ⟨distinct, ?_, fun i mem j own same => ?_⟩
        · exact List.nodup_cons.mpr ⟨fun mem => apart (List.mem_singleton.mp mem), List.nodup_singleton _⟩
        subst same
        rcases List.mem_pair.mp own with rfl | rfl
        · exact ready.absent mem
        · exact absent mem
      · intro i l _ none
        cases none
      · intro l none
        cases none

/-- The status of descriptors that the controller had. -/
theorem Owned.transmit (owned : Owned s) : Owned s.transmit := by
  have back (i k : Nat) (points : (s.transmit.descriptors i).packet = some (.txBuffer k))
      : (s.descriptors i).packet = some (.txBuffer k) := by
    unfold MbedEthernet.transmit at points
    dsimp only at points
    split_ifs at points <;> exact points
  obtain ⟨used, alone, other, own⟩ := owned
  exact ⟨
    fun i k points => used i k (back i k points),
    fun i j k first second => alone i j k (back i k first) (back j k second),
    fun i k points => other i k (back i k points), own
  ⟩

theorem mem_of_mem_firstFrame {i : Nat} {queue : List Nat} (mem : i ∈ s.firstFrame queue) : i ∈ queue := by
  induction queue with
  | nil => exact mem
  | cons j queue ih =>
      unfold firstFrame at mem
      split_ifs at mem
      · exact List.mem_singleton.mp mem ▸ List.mem_cons_self
      · rcases List.mem_cons.mp mem with rfl | mem
        · exact List.mem_cons_self
        · exact List.mem_cons_of_mem _ (ih mem)

theorem Preparing.transmit (preparing : Preparing s) : Preparing s.transmit := by
  refine preparing.congr rfl rfl (fun i mem => List.mem_of_mem_drop mem) (fun i absent _ => ?_) rfl rfl
  unfold MbedEthernet.transmit
  exact if_neg fun mem => absent (mem_of_mem_firstFrame mem)

/-- The controller transmits a reply, or the first packet. -/
theorem Sending.transmit (sending : Sending s done waiting) (nonempty : s.txQueue ≠ [])
    : (Sending s.transmit done waiting ∧ ∃ fragment, s.transmit.sent = s.sent ++ [[fragment]])
      ∨ ∃ o rest, waiting = o :: rest ∧ Sending s.transmit (done ++ [o]) rest
        ∧ s.transmit.sent = s.sent ++ [[some (bytesAt s.ethernetHeader 0 protoMacHlen), some o.payload]] := by
  obtain ⟨outputs, sent, queued, distinct, owned, index, preparing⟩ := sending
  have owned' := owned.transmit
  have preparing' := preparing.transmit
  -- the frames behind the first one keep their descriptors
  have others {frame queue : List Nat} {payloads : List (List UInt8)} (rest : Queued s queue payloads)
      (first : s.firstFrame s.txQueue = frame) (disjoint : ∀ i ∈ queue, i ∉ frame)
      : Queued s.transmit queue payloads := by
    refine rest.congr (fun i mem => .inl ?_) fun _ _ _ _ => rfl
    unfold MbedEthernet.transmit
    dsimp only
    rw [first, if_neg (disjoint i mem)]
  generalize payloads_eq : waiting.map Output.payload = payloads at queued
  generalize queue_eq : s.txQueue = txQueue at queued distinct nonempty
  cases queued with
  | nil => exact absurd rfl nonempty
  | @reply i queue _ last other rest =>
      have first : s.firstFrame s.txQueue = [i] := by
        rw [queue_eq, firstFrame, if_pos last]
      have gone : s.transmit.txQueue = queue := by
        rw [MbedEthernet.transmit, first, queue_eq]
        rfl
      have transmitted : s.transmit.sent = s.sent ++ [[s.fragment i]] := by
        rw [MbedEthernet.transmit, first]
        rfl
      refine .inl ⟨⟨outputs, ?_, ?_, ?_, owned', index, preparing'⟩, _, transmitted⟩
      · rw [transmitted, List.filterMap_append, sent]
        simp [payload?]
      · rw [gone, payloads_eq]
        refine others rest first fun j mem own => ?_
        rw [List.mem_singleton] at own
        exact (List.nodup_cons.mp distinct).1 (own ▸ mem)
      · rw [gone]
        exact (List.nodup_cons.mp distinct).2
  | @packet i j k n queue payloads header data rest =>
      have first : s.firstFrame s.txQueue = [i, j] := by
        simp [queue_eq, firstFrame, header, data]
      have gone : s.transmit.txQueue = queue := by
        rw [MbedEthernet.transmit, first, queue_eq]
        rfl
      obtain ⟨o, waiting', rfl, own, rest_eq⟩ := List.map_eq_cons_iff.mp payloads_eq
      have transmitted : s.transmit.sent
          = s.sent ++ [[some (bytesAt s.ethernetHeader 0 protoMacHlen), some o.payload]] := by
        rw [MbedEthernet.transmit, first, own]
        simp [fragment, header, data]
      have apart : ([i, j] ++ queue).Nodup := distinct
      obtain ⟨-, behind, fresh⟩ := List.nodup_append.mp apart
      refine .inr ⟨o, waiting', rfl, ⟨?_, ?_, ?_, ?_, owned', index, preparing'⟩, transmitted⟩
      · rw [List.append_assoc]
        exact outputs
      · rw [transmitted, List.filterMap_append, sent]
        simp [payload?]
      · rw [gone, rest_eq]
        exact others rest first fun l mem own => fresh l own l mem rfl
      · rw [gone]
        exact behind

/-- Nothing else changes the packets. -/
theorem Sending.others {event : Event} (sending : Sending s done waiting) (step : Step b s event s')
    (uncrossed : Uncrossed b s event) (noTransmission : event ≠ .transmits) (noPacket : event ≠ .handOver)
    : Sending s' done waiting := by
  unfold Step next at step
  cases event with
  | arrives packet =>
      dsimp only at step
      split_ifs at step
      cases step
      exact sending.congr rfl rfl rfl rfl rfl rfl rfl rfl (.inl rfl)
  | transmits => exact absurd rfl noTransmission
  | irq rxDone txDone =>
      cases step
      exact sending.irq uncrossed
  | getByte =>
      dsimp only at step
      split_ifs at step with outside
      cases step
      cases current : s.currentRxFrame with
      | none =>
          rw [getByte_idle current]
          exact sending.congr rfl rfl rfl rfl rfl rfl rfl rfl (.inl rfl)
      | some packet =>
          rw [getByte_busy current]
          split_ifs
          · exact sending.congr rfl rfl rfl rfl rfl rfl rfl rfl (.inr ⟨by rw [outside]; rfl, rfl⟩)
          · exact sending.congr rfl rfl rfl rfl rfl rfl rfl rfl (.inl rfl)
  | giveBack =>
      dsimp only at step
      split_ifs at step with giving
      cases step
      exact sending.congr rfl rfl rfl rfl rfl rfl rfl rfl (.inr ⟨by rw [giving]; rfl, rfl⟩)
  | prepareOutput =>
      dsimp only at step
      split_ifs at step with outside
      exact sending.prepareOutput outside step
  | putNbytes bytes =>
      dsimp only at step
      split_ifs at step with outside
      exact sending.putNbytes (by rw [outside]; rfl) step
  | fillHeader ip =>
      dsimp only at step
      split_ifs at step with outside
      cases step
      exact sending.congr rfl rfl rfl rfl rfl rfl rfl rfl (.inr ⟨by rw [outside]; rfl, rfl⟩)
  | storeHeader =>
      dsimp only at step
      split_ifs at step with filled
      exact sending.storeHeader filled step
  | storePayload =>
      dsimp only at step
      split_ifs at step with prepared
      obtain ⟨k, own, stored⟩ := Option.bind_eq_some_iff.mp step
      exact sending.storePayload prepared own stored
  | storeStatus =>
      obtain ⟨i, last, place, rfl⟩ := storeStatus_cases (b := b) step
      exact sending.storeStatus place
  | handOver => exact absurd rfl noPacket

theorem Sending.start (initial : Initial b s) : Sending s [] [] := by
  refine ⟨initial.outputs, by rw [initial.sent]; rfl, ?_, ?_, ?_, ?_, .idle (by rw [initial.place]; rfl)⟩
  · rw [initial.txQueue]
    exact .nil
  · rw [initial.txQueue]
    exact List.nodup_nil
  · refine ⟨fun i k points => ?_, fun i j k points => ?_, fun i k points => ?_, fun k own => ?_⟩
    · rw [initial.packet] at points
      cases points
    · rw [initial.packet] at points
      cases points
    · rw [initial.packet] at points
      cases points
    · rw [initial.currentBuffer] at own
      cases own
  · rw [initial.txProduceIndex]
    decide

theorem Sending.step {event : Event} (sending : Sending s done waiting) (step : Step b s event s')
    (uncrossed : Uncrossed b s event)
    : ∃ done' waiting', Sending s' done' waiting' := by
  by_cases transmission : event = .transmits
  · subst transmission
    unfold Step next at step
    dsimp only at step
    split_ifs at step with empty
    cases step
    rcases sending.transmit empty with ⟨kept, -⟩ | ⟨o, rest, -, kept, -⟩
    · exact ⟨_, _, kept⟩
    · exact ⟨_, _, kept⟩
  by_cases packet : event = .handOver
  · subst packet
    unfold Step next at step
    dsimp only at step
    split_ifs at step with prepared
    obtain ⟨k, -, kept⟩ := sending.handOver prepared step
    exact ⟨_, _, kept⟩
  · exact ⟨_, _, sending.others step uncrossed transmission packet⟩

end Steps

--------------------------------------------------
-- The packets of the main program
--------------------------------------------------

/-- The packet that is written, if one is, and those that were handed over. -/
def write : Option (List UInt8) × List (List UInt8) → Event → Option (List UInt8) × List (List UInt8)
  | (none, packets), .prepareOutput => (some [], packets)
  | (some bytes, packets), .putNbytes new => (some (bytes ++ new), packets)
  | (some bytes, packets), .handOver => (none, packets ++ [bytes])
  | written, _ => written

/-- The current buffer holds the packet that is written. -/
structure Writing (s : MbedEthernet) (written : Option (List UInt8) × List (List UInt8)) : Prop where
  packets : s.outputs.map Output.payload = written.2
  current : s.currentBuffer.isSome = written.1.isSome
  holds : ∀ k bytes, s.currentBuffer = some k → written.1 = some bytes →
    s.currentBufferSize = bytes.length ∧ bytesAt (s.txBuffers k).buff 0 bytes.length = bytes

/-- Whether the main program is behind `mbed_eth_fill_header`. -/
def headerFilled : MbedPlace → Bool
  | .outside | .givingBack => false
  | .filled | .storing _ _ | .headerPrepared | .payloadPrepared => true

/-- What the interrupt handler and the input leave alone. -/
structure SameOutput (s s' : MbedEthernet) : Prop where
  currentBuffer : s'.currentBuffer = s.currentBuffer
  currentBufferSize : s'.currentBufferSize = s.currentBufferSize
  buff : ∀ k, (s'.txBuffers k).buff = (s.txBuffers k).buff
  ethernetHeader : s'.ethernetHeader = s.ethernetHeader
  first : s'.first = s.first
  filledFor : s'.filledFor = s.filledFor
  outputs : s'.outputs = s.outputs
  sent : s'.sent = s.sent
  place : headerFilled s'.place = headerFilled s.place

theorem SameOutput.refl (s : MbedEthernet) : SameOutput s s :=
  ⟨rfl, rfl, fun _ => rfl, rfl, rfl, rfl, rfl, rfl, rfl⟩

theorem SameOutput.trans {s'' : MbedEthernet} (first : SameOutput s s') (second : SameOutput s' s'')
    : SameOutput s s'' :=
  ⟨
    second.currentBuffer.trans first.currentBuffer, second.currentBufferSize.trans first.currentBufferSize,
    fun k => (second.buff k).trans (first.buff k), second.ethernetHeader.trans first.ethernetHeader,
    second.first.trans first.first, second.filledFor.trans first.filledFor, second.outputs.trans first.outputs,
    second.sent.trans first.sent, second.place.trans first.place
  ⟩

theorem SameOutput.processInput (packet : RxPacket) (s : MbedEthernet)
    : SameOutput s (s.processInput b packet).2 := by
  have arp (eth : EthHead) : SameOutput s (s.processArp b eth packet) := by
    unfold MbedEthernet.processArp
    dsimp only
    split_ifs <;> exact ⟨rfl, rfl, fun _ => rfl, rfl, rfl, rfl, rfl, rfl, rfl⟩
  unfold MbedEthernet.processInput
  dsimp only
  split_ifs
  · exact .refl s
  · exact arp _
  all_goals exact ⟨rfl, rfl, fun _ => rfl, rfl, rfl, rfl, rfl, rfl, rfl⟩

theorem SameOutput.processRx (n : Nat) (s : MbedEthernet) : SameOutput s (s.processRx b n) := by
  induction n generalizing s with
  | zero => exact .refl s
  | succ n ih =>
      unfold MbedEthernet.processRx
      split
      · exact .refl s
      · rename_i packet rxQueue _
        have kept := SameOutput.processInput (b := b) packet s
        cases process : s.processInput b packet with
        | mk free t =>
        rw [process] at kept
        cases free with
        | true =>
            have given : SameOutput t { t with rxQueue } := ⟨rfl, rfl, fun _ => rfl, rfl, rfl, rfl, rfl, rfl, rfl⟩
            exact (kept.trans given).trans (ih { t with rxQueue })
        | false => exact kept

theorem SameOutput.garbageTxBuffers (s : MbedEthernet) : SameOutput s s.garbageTxBuffers := by
  have one (s : MbedEthernet) (i : Nat) : SameOutput s (s.garbage i) := by
    unfold MbedEthernet.garbage
    dsimp only
    split_ifs
    · exact .refl s
    · split
      · exact .refl s
      · rename_i j _
        refine ⟨rfl, rfl, fun k => ?_, rfl, rfl, rfl, rfl, rfl, rfl⟩
        by_cases here : k = j
        · subst here
          simp
        · simp [here]
      · exact ⟨rfl, rfl, fun _ => rfl, rfl, rfl, rfl, rfl, rfl, rfl⟩
  unfold MbedEthernet.garbageTxBuffers
  generalize List.range txDescriptors = is
  induction is generalizing s with
  | nil => exact .refl s
  | cons i is ih => exact (one s i).trans (ih (s.garbage i))

theorem SameOutput.irq (rxDone txDone : Bool) (s : MbedEthernet)
    : SameOutput s (s.ethIrqHandler b rxDone txDone) := by
  have received : SameOutput s (if rxDone then s.processRx b txDescriptors else s) := by
    split_ifs
    · exact .processRx _ s
    · exact .refl s
  unfold ethIrqHandler
  dsimp only
  generalize (if rxDone then s.processRx b txDescriptors else s) = t at received ⊢
  split_ifs
  · exact received.trans (.garbageTxBuffers t)
  · exact received

theorem SameOutput.getByte (outside : s.place = .outside) : SameOutput s s.getByte := by
  cases current : s.currentRxFrame with
  | none =>
      rw [getByte_idle current]
      exact ⟨rfl, rfl, fun _ => rfl, rfl, rfl, rfl, rfl, rfl, rfl⟩
  | some packet =>
      rw [getByte_busy current]
      split_ifs
      · exact ⟨rfl, rfl, fun _ => rfl, rfl, rfl, rfl, rfl, rfl, by rw [outside]; rfl⟩
      · exact ⟨rfl, rfl, fun _ => rfl, rfl, rfl, rfl, rfl, rfl, rfl⟩

/-- The events that do not concern the output. -/
def inputs : Event → Bool
  | .arrives _ | .irq _ _ | .getByte | .giveBack => true
  | _ => false

theorem SameOutput.step {event : Event} (step : Step b s event s') (input : inputs event) : SameOutput s s' := by
  unfold Step next at step
  cases event with
  | arrives packet =>
      dsimp only at step
      split_ifs at step
      cases step
      exact ⟨rfl, rfl, fun _ => rfl, rfl, rfl, rfl, rfl, rfl, rfl⟩
  | irq rxDone txDone =>
      cases step
      exact .irq rxDone txDone s
  | getByte =>
      dsimp only at step
      split_ifs at step with outside
      cases step
      exact .getByte outside
  | giveBack =>
      dsimp only at step
      split_ifs at step with giving
      cases step
      exact ⟨rfl, rfl, fun _ => rfl, rfl, rfl, rfl, rfl, rfl, by rw [giving]; rfl⟩
  | transmits | prepareOutput | putNbytes _ | fillHeader _ | storeHeader | storePayload | storeStatus | handOver =>
      cases input

/-- A new packet begins unless one is being written. -/
theorem prepareOutput_cases (prepare : s.prepareOutput = some s')
    : (s.currentBuffer.isSome ∧ s' = s)
      ∨ s.currentBuffer = none
        ∧ ∃ k t, SameOutput s t ∧ s' = { t with currentBuffer := some k, currentBufferSize := 0 } := by
  have taken {t t' : MbedEthernet} {k : Nat} (get : t.getTxBuffer = some (k, t')) : SameOutput t t' := by
    obtain ⟨j, -, same⟩ := Option.map_eq_some_iff.mp get
    cases same
    refine ⟨rfl, rfl, fun l => ?_, rfl, rfl, rfl, rfl, rfl, rfl⟩
    by_cases here : l = k
    · subst here
      simp
    · simp [here]
  unfold MbedEthernet.prepareOutput at prepare
  split_ifs at prepare with busy
  · cases prepare
    exact .inl ⟨busy, rfl⟩
  · obtain ⟨⟨k, t⟩, get, same⟩ := Option.map_eq_some_iff.mp prepare
    cases same
    refine .inr ⟨Option.not_isSome_iff_eq_none.mp busy, k, t, ?_, rfl⟩
    rcases Option.or_eq_some_iff.mp get with get | ⟨-, get⟩
    · exact taken get
    · exact (SameOutput.garbageTxBuffers s).trans (taken get)

theorem Writing.congr {written : Option (List UInt8) × List (List UInt8)} (writing : Writing s written)
    (outputs : s'.outputs = s.outputs) (current : s'.currentBuffer = s.currentBuffer)
    (size : s'.currentBufferSize = s.currentBufferSize) (buff : ∀ k, (s'.txBuffers k).buff = (s.txBuffers k).buff)
    : Writing s' written where
  packets := by rw [outputs, writing.packets]
  current := by rw [current, writing.current]
  holds := by
    intro k bytes own is
    rw [current] at own
    rw [size, buff]
    exact writing.holds k bytes own is

theorem Writing.prepareOutput {written : Option (List UInt8) × List (List UInt8)} (writing : Writing s written)
    (prepare : s.prepareOutput = some s')
    : Writing s' (write written .prepareOutput) := by
  obtain ⟨packet, packets⟩ := written
  rcases prepareOutput_cases prepare with ⟨busy, rfl⟩ | ⟨idle, k, t, same, rfl⟩
  · cases packet with
    | none =>
        rw [writing.current] at busy
        cases busy
    | some bytes => exact writing
  · cases packet with
    | some bytes =>
        have busy := writing.current
        rw [idle] at busy
        cases busy
    | none =>
        refine ⟨?_, rfl, fun j bytes _ is => ?_⟩
        · exact (congrArg _ same.outputs).trans writing.packets
        · cases is
          exact ⟨rfl, rfl⟩

theorem Writing.putNbytes {written : Option (List UInt8) × List (List UInt8)} {new : List UInt8}
    (writing : Writing s written) (put : s.putNbytes b new = some s')
    : Writing s' (write written (.putNbytes new)) := by
  obtain ⟨packet, packets⟩ := written
  have busy := writing.current
  unfold MbedEthernet.putNbytes at put
  cases own : s.currentBuffer with
  | none =>
      rw [own] at put busy
      cases put
      cases packet with
      | none => exact writing
      | some bytes => cases busy
  | some k =>
      rw [own] at put busy
      dsimp only at put
      split_ifs at put
      cases put
      cases packet with
      | none => cases busy
      | some bytes =>
          obtain ⟨size, holds⟩ := writing.holds k bytes own rfl
          refine ⟨writing.packets, rfl, fun j bytes' own' is => ?_⟩
          cases own'
          cases is
          refine ⟨by rw [List.length_append, size], ?_⟩
          dsimp only
          rw [Function.update_self, List.length_append, bytesAt_add, size, Nat.zero_add, bytesAt_putBytes,
            bytesAt_putBytes_other _ (.inl (by rw [Nat.zero_add])), holds]

theorem Writing.handOver {written : Option (List UInt8) × List (List UInt8)} (writing : Writing s written)
    (handed : s.handOver = some s')
    : Writing s' (write written .handOver) := by
  obtain ⟨packet, packets⟩ := written
  obtain ⟨k, own, rfl⟩ := Option.map_eq_some_iff.mp handed
  have busy := writing.current
  rw [own] at busy
  cases packet with
  | none => cases busy
  | some bytes =>
      obtain ⟨size, holds⟩ := writing.holds k bytes own rfl
      refine ⟨?_, rfl, fun j bytes' none is => by cases none⟩
      show (s.outputs ++ [Output.mk s.filledFor.1 s.filledFor.2
        (bytesAt (s.txBuffers k).buff 0 s.currentBufferSize)]).map Output.payload = packets ++ [bytes]
      rw [List.map_append, writing.packets, size, List.map_singleton, holds]

/-- The packets that the main program writes, step by step. -/
theorem Writing.step {written : Option (List UInt8) × List (List UInt8)} {event : Event} (writing : Writing s written)
    (step : Step b s event s')
    : Writing s' (write written event) := by
  have nothing (same : write written event = written) (outputs : s'.outputs = s.outputs)
      (current : s'.currentBuffer = s.currentBuffer) (size : s'.currentBufferSize = s.currentBufferSize)
      (buff : ∀ k, (s'.txBuffers k).buff = (s.txBuffers k).buff)
      : Writing s' (write written event) := by
    rw [same]
    exact writing.congr outputs current size buff
  have input (input : inputs event) : Writing s' (write written event) := by
    have same := SameOutput.step step input
    refine nothing ?_ same.outputs same.currentBuffer same.currentBufferSize same.buff
    obtain ⟨packet, packets⟩ := written
    cases event <;> cases packet <;> first | rfl | cases input
  cases event with
  | arrives packet | irq rxDone txDone | getByte | giveBack => exact input rfl
  | transmits =>
      unfold Step next at step
      dsimp only at step
      split_ifs at step
      cases step
      exact nothing (by obtain ⟨packet, packets⟩ := written; cases packet <;> rfl) rfl rfl rfl fun _ => rfl
  | prepareOutput =>
      unfold Step next at step
      dsimp only at step
      split_ifs at step
      exact writing.prepareOutput step
  | putNbytes bytes =>
      unfold Step next at step
      dsimp only at step
      split_ifs at step
      exact writing.putNbytes step
  | fillHeader ip =>
      unfold Step next at step
      dsimp only at step
      split_ifs at step
      cases step
      exact nothing (by obtain ⟨packet, packets⟩ := written; cases packet <;> rfl) rfl rfl rfl fun _ => rfl
  | storeHeader =>
      unfold Step next at step
      dsimp only at step
      split_ifs at step
      obtain ⟨i, rfl⟩ := storePacket_cases step
      exact nothing (by obtain ⟨packet, packets⟩ := written; cases packet <;> rfl) rfl rfl rfl fun _ => rfl
  | storePayload =>
      unfold Step next at step
      dsimp only at step
      split_ifs at step
      obtain ⟨k, -, stored⟩ := Option.bind_eq_some_iff.mp step
      obtain ⟨i, rfl⟩ := storePacket_cases stored
      exact nothing (by obtain ⟨packet, packets⟩ := written; cases packet <;> rfl) rfl rfl rfl fun _ => rfl
  | storeStatus =>
      obtain ⟨i, last, -, rfl⟩ := storeStatus_cases (b := b) step
      exact nothing (by obtain ⟨packet, packets⟩ := written; cases packet <;> rfl) rfl rfl rfl fun _ => rfl
  | handOver =>
      unfold Step next at step
      dsimp only at step
      split_ifs at step
      exact writing.handOver step

/-- A packet for an address. -/
def outputTo (ip : UInt32) (payload : List UInt8) : List Event :=
  [.prepareOutput, .putNbytes payload, .fillHeader ip, .storeHeader, .storeStatus, .storePayload, .storeStatus,
    .handOver]

/-- An ARP request between the two fragments of a packet: the packet leaves without its header, behind the reply. -/
example
    : (runChecked (next mbedBoard) (fun _ _ => True)
        ([.arrives request] ++ (outputTo 5 [1, 2]).take 5 ++ [.irq true false] ++ (outputTo 5 [1, 2]).drop 5
          ++ [.transmits, .transmits]) bootEthernet).map (·.sent.drop 1)
      = some [[none, some [1, 2]]] := by
  decide +kernel

end Smews.Targets
