import Smews.Targets.EthernetInput

/-! Frames that one board writes and another one reads. A reply to an ARP request teaches the asker the address of the
board, which has learned the one of the asker.
-/

namespace Smews.Targets

open Smews.Core ByteMemory Runs MbedEthernet

--------------------------------------------------
-- Round trips
--------------------------------------------------

section RoundTrips

variable {data : Nat → UInt8} {idx : Nat}

theorem putTwo_getTwo (data : Nat → UInt8) (idx : Nat) : putTwo (getTwo data idx) = bytesAt data idx 2 := by
  have high (a b : UInt8) : ((a.toUInt16 <<< 8 ||| b.toUInt16) >>> 8).toUInt8 = a := by
    apply UInt8.eq_of_toBitVec_eq
    ext i lt
    simp
    grind
  have low (a b : UInt8) : (a.toUInt16 <<< 8 ||| b.toUInt16).toUInt8 = b := by
    apply UInt8.eq_of_toBitVec_eq
    ext i lt
    simp
  rw [putTwo, getTwo, high, low]
  rfl

theorem putFour_getFour (data : Nat → UInt8) (idx : Nat) : putFour (getFour data idx) = bytesAt data idx 4 := by
  have byte (a b c d : UInt8) (x : UInt32)
      (same : x = a.toUInt32 <<< 24 ||| b.toUInt32 <<< 16 ||| c.toUInt32 <<< 8 ||| d.toUInt32)
      : (x >>> 24).toUInt8 = a ∧ (x >>> 16).toUInt8 = b ∧ (x >>> 8).toUInt8 = c ∧ x.toUInt8 = d := by
    subst same
    refine ⟨?_, ?_, ?_, ?_⟩
    all_goals
      apply UInt8.eq_of_toBitVec_eq
      ext i lt
      simp <;> grind
  obtain ⟨first, second, third, fourth⟩ := byte _ _ _ _ _ (rfl : getFour data idx = _)
  rw [putFour, first, second, third, fourth]
  rfl

theorem putMac_getMac (data : Nat → UInt8) (idx : Nat) : putMac (getMac data idx) = bytesAt data idx 6 := rfl

theorem putTwo_injective {x y : UInt16} (same : putTwo x = putTwo y) : x = y := by
  simp only [putTwo, List.cons.injEq, and_true] at same
  obtain ⟨high, low⟩ := same
  have high := congrArg UInt8.toNat high
  have low := congrArg UInt8.toNat low
  have := x.toNat_lt
  have := y.toNat_lt
  apply UInt16.toNat_inj.mp
  simp [UInt16.toNat_shiftRight, Nat.shiftRight_eq_div_pow] at high low
  omega

theorem putFour_injective {x y : UInt32} (same : putFour x = putFour y) : x = y := by
  simp only [putFour, List.cons.injEq, and_true] at same
  obtain ⟨first, second, third, fourth⟩ := same
  have first := congrArg UInt8.toNat first
  have second := congrArg UInt8.toNat second
  have third := congrArg UInt8.toNat third
  have fourth := congrArg UInt8.toNat fourth
  have := x.toNat_lt
  have := y.toNat_lt
  apply UInt32.toNat_inj.mp
  simp [UInt32.toNat_shiftRight, Nat.shiftRight_eq_div_pow] at first second third fourth
  omega

theorem length_putMac (x : EthAddr) : (putMac x).length = 6 := by simp [putMac]

theorem putMac_injective {x y : EthAddr} (same : putMac x = putMac y) : x = y := Vector.toList_inj.mp same

/-- An Ethernet header is written as it was read. -/
theorem protoEthMangle_demangle (data : Nat → UInt8)
    : protoEthMangle (protoEthDemangle data) = bytesAt data 0 protoMacHlen := by
  rw [protoEthMangle, protoEthDemangle, putMac_getMac, putMac_getMac, putTwo_getTwo, ← bytesAt_add, ← bytesAt_add]
  rfl

theorem protoEthMangle_injective {x y : EthHead} (same : protoEthMangle x = protoEthMangle y) : x = y := by
  unfold protoEthMangle at same
  obtain ⟨macs, type⟩ := List.append_inj' same rfl
  obtain ⟨dst, src⟩ := List.append_inj macs (by simp [putMac])
  cases x
  cases y
  rw [EthHead.mk.injEq]
  exact ⟨putMac_injective src, putMac_injective dst, putTwo_injective type⟩

/-- An ARP header is written as it was read. -/
theorem protoArpMangle_demangle (data : Nat → UInt8)
    : protoArpMangle (protoArpDemangle data) = bytesAt data 0 protoArpHlen := by
  rw [protoArpMangle, protoArpDemangle]
  simp only [putTwo_getTwo, putMac_getMac, putFour_getFour]
  rfl

theorem protoArpMangle_injective {x y : ArpHead} (same : protoArpMangle x = protoArpMangle y) : x = y := by
  unfold protoArpMangle at same
  obtain ⟨same, targetIp⟩ := List.append_inj' same rfl
  obtain ⟨same, targetMac⟩ := List.append_inj' same (by simp [putMac])
  obtain ⟨same, senderIp⟩ := List.append_inj' same rfl
  obtain ⟨same, senderMac⟩ := List.append_inj' same (by simp [putMac])
  obtain ⟨same, opcode⟩ := List.append_inj' same rfl
  obtain ⟨same, lengths⟩ := List.append_inj' same rfl
  obtain ⟨hardType, protocolType⟩ := List.append_inj' same rfl
  simp only [List.cons.injEq, and_true] at lengths
  cases x
  cases y
  rw [ArpHead.mk.injEq]
  exact ⟨
    putTwo_injective hardType, putTwo_injective protocolType, lengths.1, lengths.2, putTwo_injective opcode,
    putMac_injective senderMac, putFour_injective senderIp, putMac_injective targetMac, putFour_injective targetIp
  ⟩

/-- A frame that begins with two headers is read as these. -/
theorem demangle_frame {data : Nat → UInt8} {eth : EthHead} {arp : ArpHead}
    (frame : bytesAt data 0 (protoMacHlen + protoArpHlen) = protoEthMangle eth ++ protoArpMangle arp)
    : protoEthDemangle data = eth ∧ protoArpDemangle (fun i => data (protoMacHlen + i)) = arp := by
  have shifted : bytesAt data (0 + protoMacHlen) protoArpHlen
      = bytesAt (fun i => data (protoMacHlen + i)) 0 protoArpHlen := by
    simp only [bytesAt, Nat.zero_add]
  rw [bytesAt_add, shifted, ← protoEthMangle_demangle, ← protoArpMangle_demangle] at frame
  obtain ⟨first, second⟩ := List.append_inj frame (by simp [protoEthMangle, putMac, putTwo])
  exact ⟨protoEthMangle_injective first, protoArpMangle_injective second⟩

end RoundTrips

--------------------------------------------------
-- The address cache
--------------------------------------------------

section Cache

variable {b : Board} {s s' : MbedEthernet}

/-- The table of a board after some calls of `add_link_layer_address`. -/
def tableOf (b : Board) (heard : List (LinkLayerAdd UInt32 EthAddr)) : List (LinkLayerEntry UInt32 EthAddr) :=
  tableAfter b.maxEntry (Vector.replicate 6 0) heard

/-- The table is the one of the calls so far. -/
def Recorded (b : Board) (s : MbedEthernet) : Prop := s.linkLayerTable = tableOf b s.adds

/-- No call, or some more. -/
structure Hears (b : Board) (s s' : MbedEthernet) : Prop where
  recorded : Recorded b s → Recorded b s'
  adds : s.adds <+: s'.adds

theorem Hears.of_eq (table : s'.linkLayerTable = s.linkLayerTable) (adds : s'.adds = s.adds) : Hears b s s' :=
  ⟨fun recorded => by rw [Recorded, table, recorded, adds], by rw [adds]⟩

theorem Hears.trans {s'' : MbedEthernet} (first : Hears b s s') (second : Hears b s' s'') : Hears b s s'' :=
  ⟨fun recorded => second.recorded (first.recorded recorded), first.adds.trans second.adds⟩

theorem Hears.learn (ip : UInt32) (linkLayer : EthAddr) (s : MbedEthernet) : Hears b s (s.learn b ip linkLayer) := by
  refine ⟨fun recorded => ?_, List.prefix_append _ _⟩
  unfold Recorded at recorded ⊢
  unfold MbedEthernet.learn tableOf
  rw [tableAfter_concat, recorded]
  rfl

theorem Hears.learn_of {t : MbedEthernet} {ip : UInt32} {linkLayer : EthAddr}
    (table : t.linkLayerTable = s.linkLayerTable) (adds : t.adds = s.adds)
    : Hears b s (t.learn b ip linkLayer) :=
  (Hears.of_eq table adds).trans (.learn ip linkLayer t)

theorem Hears.processArp (eth : EthHead) (packet : RxPacket) (s : MbedEthernet)
    : Hears b s (s.processArp b eth packet) := by
  unfold MbedEthernet.processArp
  dsimp only
  split_ifs
  · exact .of_eq rfl rfl
  · exact .learn_of rfl rfl
  · exact .of_eq rfl rfl
  · exact .learn _ _ s

theorem Hears.processInput (packet : RxPacket) (s : MbedEthernet) : Hears b s (s.processInput b packet).2 := by
  unfold MbedEthernet.processInput
  dsimp only
  split_ifs
  · exact .of_eq rfl rfl
  · exact .processArp _ packet s
  · exact .of_eq rfl rfl
  · exact .of_eq rfl rfl
  all_goals exact (Hears.learn _ _ s).trans (.of_eq rfl rfl)

theorem Hears.processRx (n : Nat) (s : MbedEthernet) : Hears b s (s.processRx b n) := by
  induction n generalizing s with
  | zero => exact .of_eq rfl rfl
  | succ n ih =>
      unfold MbedEthernet.processRx
      split
      · exact .of_eq rfl rfl
      · rename_i packet rxQueue _
        have heard := Hears.processInput (b := b) packet s
        cases process : s.processInput b packet with
        | mk free t =>
        rw [process] at heard
        cases free with
        | true =>
            have given : Hears b t { t with rxQueue } := .of_eq rfl rfl
            exact (heard.trans given).trans (ih { t with rxQueue })
        | false => exact heard

theorem Hears.garbageTxBuffers (s : MbedEthernet) : Hears b s s.garbageTxBuffers := by
  have one (s : MbedEthernet) (i : Nat) : Hears b s (s.garbage i) := by
    unfold MbedEthernet.garbage
    dsimp only
    split_ifs
    · exact .of_eq rfl rfl
    · split <;> exact .of_eq rfl rfl
  unfold MbedEthernet.garbageTxBuffers
  generalize List.range txDescriptors = is
  induction is generalizing s with
  | nil => exact .of_eq rfl rfl
  | cons i is ih => exact (one s i).trans (ih (s.garbage i))

theorem Hears.step {event : Event} (step : Step b s event s') : Hears b s s' := by
  unfold Step next at step
  cases event with
  | arrives packet =>
      dsimp only at step
      split_ifs at step
      cases step
      exact .of_eq rfl rfl
  | transmits =>
      dsimp only at step
      split_ifs at step
      cases step
      exact .of_eq rfl rfl
  | irq rxDone txDone =>
      cases step
      unfold ethIrqHandler
      have received : Hears b s (if rxDone then s.processRx b txDescriptors else s) := by
        split_ifs
        · exact .processRx _ s
        · exact .of_eq rfl rfl
      dsimp only
      generalize (if rxDone then s.processRx b txDescriptors else s) = t at received ⊢
      split_ifs
      · exact received.trans (.garbageTxBuffers t)
      · exact received
  | getByte =>
      dsimp only at step
      split_ifs at step
      cases step
      unfold MbedEthernet.getByte
      split
      · exact .of_eq rfl rfl
      · dsimp only
        split_ifs <;> exact .of_eq rfl rfl
  | giveBack =>
      dsimp only at step
      split_ifs at step
      cases step
      exact .of_eq rfl rfl
  | prepareOutput =>
      dsimp only at step
      split_ifs at step
      unfold MbedEthernet.prepareOutput at step
      have taken {t t' : MbedEthernet} {i : Nat} (get : t.getTxBuffer = some (i, t')) : Hears b t t' := by
        obtain ⟨j, -, same⟩ := Option.map_eq_some_iff.mp get
        cases same
        exact .of_eq rfl rfl
      split_ifs at step
      · cases step
        exact .of_eq rfl rfl
      · obtain ⟨⟨i, t⟩, get, same⟩ := Option.map_eq_some_iff.mp step
        cases same
        rcases Option.or_eq_some_iff.mp get with get | ⟨-, get⟩
        · exact (taken get).trans (.of_eq rfl rfl)
        · exact ((Hears.garbageTxBuffers s).trans (taken get)).trans (.of_eq rfl rfl)
  | putNbytes bytes =>
      dsimp only at step
      split_ifs at step
      unfold MbedEthernet.putNbytes at step
      split at step
      · cases step
        exact .of_eq rfl rfl
      · dsimp only at step
        split_ifs at step
        cases step
        exact .of_eq rfl rfl
  | fillHeader ip =>
      dsimp only at step
      split_ifs at step
      cases step
      exact .of_eq rfl rfl
  | storeHeader =>
      dsimp only at step
      split_ifs at step
      obtain ⟨i, rfl⟩ := storePacket_cases step
      exact .of_eq rfl rfl
  | storePayload =>
      dsimp only at step
      split_ifs at step
      obtain ⟨k, -, stored⟩ := Option.bind_eq_some_iff.mp step
      obtain ⟨i, rfl⟩ := storePacket_cases stored
      exact .of_eq rfl rfl
  | storeStatus =>
      obtain ⟨i, last, -, rfl⟩ := storeStatus_cases (b := b) step
      exact .of_eq rfl rfl
  | handOver =>
      dsimp only at step
      split_ifs at step
      obtain ⟨k, -, rfl⟩ := Option.map_eq_some_iff.mp step
      exact .of_eq rfl rfl

/-- The table after any run. -/
theorem recorded_after {events : List Event} (initial : Initial b s) (run : Run (Step b) s events s')
    : Recorded b s' := by
  refine run.invariant (Recorded b) (fun recorded step => (Hears.step step).recorded recorded) ?_
  rw [Recorded, initial.linkLayerTable, initial.adds]
  rfl

/-- The header that is filled for an address that was just learned. -/
theorem fillHeader_learned {ip : UInt32} {linkLayer : EthAddr} {now : UInt32} (recorded : Recorded b s)
    (nonnull : ∀ a ∈ s.adds, a.ip ≠ 0) (ip_nonnull : ip ≠ 0)
    (table : s'.linkLayerTable = addLinkLayerAddress s.linkLayerTable ⟨ip, linkLayer, now⟩)
    : getMac (s'.fillHeader b ip).ethernetHeader 0 = linkLayer := by
  have mapped : Mapped s.linkLayerTable := by
    rw [recorded]
    exact mapped_after nonnull
  have found : getLinkLayerAddress s'.linkLayerTable ip = some linkLayer := by
    rw [table, getLinkLayerAddress_add mapped ip_nonnull]
    exact if_pos rfl
  unfold fillHeader
  dsimp only
  rw [found, Option.getD_some]
  apply putMac_injective
  rw [putMac_getMac, ← length_putMac linkLayer]
  exact bytesAt_putBytes _ 0 (putMac linkLayer)

end Cache

--------------------------------------------------
-- A request and its reply
--------------------------------------------------

/-- The frame of an ARP request for a board, from another one. -/
structure Asks (asker answerer : Board) (packet : RxPacket) : Prop where
  type : (protoEthDemangle packet.bytes).type = protoArp
  opcode : (protoArpDemangle fun i => packet.bytes (protoMacHlen + i)).opcode = 1
  targetIp : (protoArpDemangle fun i => packet.bytes (protoMacHlen + i)).targetIp = answerer.localIpAddr
  senderIp : (protoArpDemangle fun i => packet.bytes (protoMacHlen + i)).senderIp = asker.localIpAddr
  senderMac : (protoArpDemangle fun i => packet.bytes (protoMacHlen + i)).senderMac = asker.localEthAddr

variable {asker answerer : Board} {s t : MbedEthernet} {packet : RxPacket}

/-- The frame that answers a request. -/
def replyTo (asker answerer : Board) (packet : RxPacket) : List UInt8 :=
  protoEthMangle { src := answerer.localEthAddr, dst := (protoEthDemangle packet.bytes).src, type := protoArp }
    ++ protoArpMangle {
      hardType := 1
      protocolType := protoIp
      hlen := 6
      plen := 4
      opcode := 2
      senderMac := answerer.localEthAddr
      senderIp := answerer.localIpAddr
      targetMac := asker.localEthAddr
      targetIp := asker.localIpAddr
    }

theorem length_replyTo : (replyTo asker answerer packet).length = protoMacHlen + protoArpHlen := by
  simp [replyTo, protoEthMangle, protoArpMangle, putMac, putTwo, putFour, protoMacHlen, protoArpHlen]

/-- What becomes of a frame with an ARP header. -/
theorem processInput_arp (type : (protoEthDemangle packet.bytes).type = protoArp)
    (other : s.currentRxFrame.map RxPacket.buffer ≠ some packet.buffer)
    : s.processInput answerer packet = (true, s.processArp answerer (protoEthDemangle packet.bytes) packet) := by
  unfold processInput
  rw [if_neg other]
  exact if_pos type

/-- A request is answered when there is a transmit descriptor, and the asker is learned. -/
theorem Asks.answered (asks : Asks asker answerer packet)
    (other : s.currentRxFrame.map RxPacket.buffer ≠ some packet.buffer)
    (ready : answerer.ready s.txQueue s.txProduceIndex)
    : ∃ s', s.processInput answerer packet = (true, s')
        ∧ s'.txQueue = s.txQueue ++ [s.txProduceIndex]
        ∧ (s'.descriptors s.txProduceIndex).last = true
        ∧ s'.fragment s.txProduceIndex = some (replyTo asker answerer packet)
        ∧ s'.linkLayerTable = addLinkLayerAddress s.linkLayerTable
            ⟨asker.localIpAddr, asker.localEthAddr, answerer.clock s.adds.length⟩ := by
  refine ⟨_, processInput_arp asks.type other, ?_⟩
  unfold processArp
  dsimp only
  rw [if_neg (not_not.mpr asks.targetIp), if_pos asks.opcode, if_neg (not_not.mpr ready), asks.senderIp,
    asks.senderMac, asks.targetIp, asks.type]
  refine ⟨rfl, ?_, ?_, rfl⟩
  · simp [learn, setDescriptor]
  · have reply := bytesAt_putBytes s.arpReplyBuffer 0 (replyTo asker answerer packet)
    rw [length_replyTo] at reply
    simpa [fragment, learn, setDescriptor, replyTo] using reply

/-- A reply teaches the asker. -/
theorem processInput_reply {reply : RxPacket}
    (frame : bytesAt reply.bytes 0 (protoMacHlen + protoArpHlen) = replyTo asker answerer packet)
    (other : t.currentRxFrame.map RxPacket.buffer ≠ some reply.buffer)
    : ∃ t', t.processInput asker reply = (true, t') ∧ t'.linkLayerTable = addLinkLayerAddress t.linkLayerTable
        ⟨answerer.localIpAddr, answerer.localEthAddr, asker.clock t.adds.length⟩ := by
  obtain ⟨eth, arp⟩ := demangle_frame frame
  refine ⟨_, processInput_arp (by rw [eth]) other, ?_⟩
  unfold processArp
  dsimp only
  rw [arp]
  dsimp only
  rw [if_neg (not_not.mpr rfl), if_neg (by decide)]
  rfl

/-- Another board, at 192.168.1.5. -/
def otherBoard : Board := { mbedBoard with localIpAddr := 0xc0a80105, localEthAddr := #v[2, 3, 0, 0, 0, 9] }

/-- It asks for the address of the first one. -/
def request : RxPacket :=
  rxPacket 0 [
    255, 255, 255, 255, 255, 255, 2, 3, 0, 0, 0, 9, 8, 6,
    0, 1, 8, 0, 6, 4, 0, 1, 2, 3, 0, 0, 0, 9, 192, 168, 1, 5, 0, 0, 0, 0, 0, 0, 192, 168, 1, 2
  ]

end Smews.Targets
