import Smews.Targets.EthernetOutput

/-! The addresses of the frames that the controller transmits. The header of all frames is one buffer, so that a packet
goes to its own address only when it leaves before the next header is filled.
-/

namespace Smews.Targets

open Smews.Core ByteMemory Runs MbedEthernet

variable {b : Board} {s s' : MbedEthernet}

--------------------------------------------------
-- Headers and tables
--------------------------------------------------

/-- The bytes of a transmitted frame that has its payload in a fragment of its own. -/
def ipFrame? : List (Option (List UInt8)) → Option (List UInt8)
  | [some header, some payload] => some (header ++ payload)
  | _ => none

/-- The address for the packets to an IP address, after some calls of `add_link_layer_address`. -/
def addressFor (b : Board) (heard : List (LinkLayerAdd UInt32 EthAddr)) (ip : UInt32) : EthAddr :=
  (getLinkLayerAddress (tableOf b heard) ip).getD broadcast

/-- The header for a packet. -/
def headerFor (b : Board) (ip : UInt32) (heard : List (LinkLayerAdd UInt32 EthAddr)) : List UInt8 :=
  protoEthMangle { src := b.localEthAddr, dst := addressFor b heard ip, type := protoIp }

/-- The frame of a packet. -/
def frameFor (b : Board) (o : Output) : List UInt8 := headerFor b o.ip o.heard ++ o.payload

/-- Whether an event fills `ethernet_header`. -/
def fills : Event → Bool
  | .fillHeader _ => true
  | _ => false

/-- The header is not filled while the controller has a frame that it belongs to. -/
def HeaderFree (s : MbedEthernet) (event : Event) : Prop :=
  fills event → ∀ i ∈ s.txQueue, (s.descriptors i).packet ≠ some .ethernetHeader

instance (s : MbedEthernet) (event : Event) : Decidable (HeaderFree s event) := inferInstanceAs (Decidable (_ → _))

/-- The last call for the IP address gave this address. -/
def LastHeard (heard : List (LinkLayerAdd UInt32 EthAddr)) (ip : UInt32) (linkLayer : EthAddr) : Prop :=
  ∃ before a after, heard = before ++ a :: after ∧ a.ip = ip ∧ a.linkLayer = linkLayer ∧ ∀ c ∈ after, c.ip ≠ ip

/-- An address that the table gives is the last one that was heard. -/
theorem lastHeard_of_lookup {heard : List (LinkLayerAdd UInt32 EthAddr)} {ip : UInt32} {linkLayer : EthAddr}
    (nonnull : ∀ a ∈ heard, a.ip ≠ 0) (ip_nonnull : ip ≠ 0)
    (lookup : getLinkLayerAddress (tableOf b heard) ip = some linkLayer)
    : LastHeard heard ip linkLayer := by
  induction heard using List.reverseRecOn with
  | nil =>
      obtain ⟨entry, found, -⟩ := Option.map_eq_some_iff.mp lookup
      have mem := List.mem_of_find?_eq_some found
      have here := List.find?_some found
      rw [List.eq_of_mem_replicate mem] at here
      exact absurd (of_decide_eq_true here).symm ip_nonnull
  | append_singleton heard a ih =>
      have nonnull' : ∀ c ∈ heard, c.ip ≠ 0 := fun c mem => nonnull c (List.mem_append_left _ mem)
      rw [tableOf, tableAfter_concat, getLinkLayerAddress_add (mapped_after nonnull') ip_nonnull] at lookup
      split_ifs at lookup with here gone
      · exact ⟨heard, a, [], rfl, here.symm, Option.some.inj lookup, fun c mem => absurd mem List.not_mem_nil⟩
      · obtain ⟨before, c, after, rfl, own, mac, others⟩ := ih nonnull' lookup
        refine ⟨before, c, after ++ [a], by simp, own, mac, fun d mem => ?_⟩
        rcases List.mem_append.mp mem with mem | mem
        · exact others d mem
        · rw [List.mem_singleton] at mem
          exact mem ▸ Ne.symm here

/-- A packet that the controller has needs the header. -/
theorem Queued.header {queue : List Nat} {payloads : List (List UInt8)} (queued : Queued s queue payloads)
    (nonempty : payloads ≠ [])
    : ∃ i ∈ queue, (s.descriptors i).packet = some .ethernetHeader := by
  induction queued with
  | nil => exact absurd rfl nonempty
  | reply _ _ _ ih =>
      obtain ⟨i, mem, points⟩ := ih nonempty
      exact ⟨i, List.mem_cons_of_mem _ mem, points⟩
  | packet header _ _ _ => exact ⟨_, List.mem_cons_self, by rw [header]⟩

/-- The header was filled for the packets that the controller has. -/
structure Addressed (b : Board) (s : MbedEthernet) (done waiting : List Output) : Prop where
  sending : Sending s done waiting
  recorded : Recorded b s
  frames : s.sent.filterMap ipFrame? = done.map (frameFor b)
  header : s.first = false → bytesAt s.ethernetHeader 0 protoMacHlen = headerFor b s.filledFor.1 s.filledFor.2
  filled : headerFilled s.place → s.first = false
  own : ∀ o ∈ waiting, s.first = false ∧ o.ip = s.filledFor.1 ∧ o.heard = s.filledFor.2
  heard : ∀ o ∈ s.outputs, o.heard <+: s.adds
  last : s.first = false → s.filledFor.2 <+: s.adds

section Addresses

variable {done waiting : List Output}

theorem Addressed.congr (addressed : Addressed b s done waiting) (sending : Sending s' done waiting)
    (hears : Hears b s s') (header : s'.ethernetHeader = s.ethernetHeader) (first : s'.first = s.first)
    (filledFor : s'.filledFor = s.filledFor) (outputs : s'.outputs = s.outputs) (sent : s'.sent = s.sent)
    (place : headerFilled s'.place = headerFilled s.place)
    : Addressed b s' done waiting where
  sending := sending
  recorded := hears.recorded addressed.recorded
  frames := by rw [sent, addressed.frames]
  header := by
    rw [header, first, filledFor]
    exact addressed.header
  filled := fun filled => by
    rw [first]
    exact addressed.filled (by rwa [← place])
  own := by
    rw [first, filledFor]
    exact addressed.own
  heard := fun o mem => (addressed.heard o (outputs ▸ mem)).trans hears.adds
  last := fun used => by
    rw [filledFor]
    exact (addressed.last (first ▸ used)).trans hears.adds

/-- The part of the header that all frames have in common. -/
theorem Addressed.source (addressed : Addressed b s done waiting)
    : bytesAt (if s.first then putBytes s.ethernetHeader 6 (putMac b.localEthAddr ++ putTwo protoIp)
        else s.ethernetHeader) 6 8 = putMac b.localEthAddr ++ putTwo protoIp := by
  cases first : s.first with
  | true =>
      have stored := bytesAt_putBytes s.ethernetHeader 6 (putMac b.localEthAddr ++ putTwo protoIp)
      rwa [List.length_append, length_putMac] at stored
  | false =>
      have header := addressed.header first
      rw [headerFor, protoEthMangle, List.append_assoc, show protoMacHlen = 6 + 8 from rfl, bytesAt_add] at header
      exact (List.append_inj header (by rw [length_bytesAt, length_putMac])).2

/-- The header for a packet is filled. -/
theorem Addressed.fillHeader (addressed : Addressed b s done waiting) (outside : s.place = .outside) (ip : UInt32)
    (free : ∀ i ∈ s.txQueue, (s.descriptors i).packet ≠ some .ethernetHeader)
    : Addressed b (s.fillHeader b ip) done waiting := by
  have none : waiting = [] := by
    by_contra some
    obtain ⟨i, mem, points⟩ := addressed.sending.queued.header (by simpa using some)
    exact free i mem points
  have source := addressed.source
  obtain ⟨sending, recorded, frames, header, filled, own, heard, last⟩ := addressed
  have kept : Sending (s.fillHeader b ip) done waiting :=
    sending.congr rfl rfl rfl rfl rfl rfl rfl rfl (.inr ⟨by rw [outside]; rfl, rfl⟩)
  refine ⟨kept, recorded, frames, fun _ => ?_, fun _ => rfl, fun o mem => ?_, heard, fun _ => List.prefix_rfl⟩
  · unfold MbedEthernet.fillHeader
    dsimp only
    have dst := bytesAt_putBytes (if s.first then putBytes s.ethernetHeader 6 (putMac b.localEthAddr ++ putTwo protoIp)
      else s.ethernetHeader) 0 (putMac ((getLinkLayerAddress s.linkLayerTable ip).getD broadcast))
    rw [length_putMac] at dst
    rw [headerFor, protoEthMangle, List.append_assoc, show protoMacHlen = 6 + 8 from rfl, bytesAt_add, dst,
      bytesAt_putBytes_other _ (.inr (by rw [length_putMac])), source, addressFor, recorded]
  · rw [none] at mem
    cases mem

/-- The controller transmits a frame with the header that it finds. -/
theorem Addressed.transmit (addressed : Addressed b s done waiting) (nonempty : s.txQueue ≠ [])
    : ∃ done' waiting', Addressed b s.transmit done' waiting' := by
  obtain ⟨sending, recorded, frames, header, filled, own, heard, last⟩ := addressed
  rcases sending.transmit nonempty with ⟨kept, fragment, sent⟩ | ⟨o, rest, rfl, kept, sent⟩
  · refine ⟨done, waiting, kept, recorded, ?_, header, filled, own, heard, last⟩
    rw [sent, List.filterMap_append, frames]
    cases fragment <;> simp [ipFrame?]
  · refine ⟨done ++ [o], rest, kept, recorded, ?_, header, filled, fun o' mem => ?_, heard, last⟩
    · obtain ⟨first, ip, heard'⟩ := own o List.mem_cons_self
      rw [sent, List.filterMap_append, frames, List.map_append, header first, ← ip, ← heard']
      rfl
    · exact own o' (List.mem_cons_of_mem _ mem)

/-- A packet is handed over with the header that was filled for it. -/
theorem Addressed.handOver (addressed : Addressed b s done waiting) (prepared : s.place = .payloadPrepared)
    (handed : s.handOver = some s')
    : ∃ waiting', Addressed b s' done waiting' := by
  obtain ⟨sending, recorded, frames, header, filled, own, heard, last⟩ := addressed
  obtain ⟨k, current, kept⟩ := sending.handOver prepared handed
  have first : s.first = false := filled (by rw [prepared]; rfl)
  obtain ⟨l, current', rfl⟩ := Option.map_eq_some_iff.mp handed
  refine ⟨_, kept, recorded, frames, header, fun _ => first, fun o mem => ?_, fun o mem => ?_, last⟩
  · rcases List.mem_append.mp mem with old | new
    · exact own o old
    · rw [List.mem_singleton.mp new]
      exact ⟨first, rfl, rfl⟩
  · rcases List.mem_append.mp mem with old | new
    · exact heard o old
    · rw [List.mem_singleton.mp new]
      exact last first

theorem Addressed.step {event : Event} (addressed : Addressed b s done waiting) (step : Step b s event s')
    (uncrossed : Uncrossed b s event) (free : HeaderFree s event)
    : ∃ done' waiting', Addressed b s' done' waiting' := by
  have hears := Hears.step step
  have others := addressed.sending.others step uncrossed
  have input (input : inputs event) (noTransmission : event ≠ .transmits) (noPacket : event ≠ .handOver)
      : ∃ done' waiting', Addressed b s' done' waiting' := by
    have same := SameOutput.step step input
    exact ⟨_, _, addressed.congr (others noTransmission noPacket) hears same.ethernetHeader same.first same.filledFor
      same.outputs same.sent same.place⟩
  cases event with
  | arrives packet | irq rxDone txDone | getByte | giveBack =>
      exact input rfl (fun same => by cases same) (fun same => by cases same)
  | transmits =>
      unfold Step next at step
      dsimp only at step
      split_ifs at step with empty
      cases step
      exact addressed.transmit empty
  | prepareOutput =>
      have kept := others (fun same => by cases same) (fun same => by cases same)
      unfold Step next at step
      dsimp only at step
      split_ifs at step
      rcases prepareOutput_cases step with ⟨-, rfl⟩ | ⟨-, k, t, same, rfl⟩
      · exact ⟨_, _, addressed⟩
      · exact ⟨_, _, addressed.congr kept hears same.ethernetHeader same.first same.filledFor same.outputs same.sent
          same.place⟩
  | putNbytes bytes =>
      have kept := others (fun same => by cases same) (fun same => by cases same)
      unfold Step next at step
      dsimp only at step
      split_ifs at step
      unfold MbedEthernet.putNbytes at step
      split at step
      · cases step
        exact ⟨_, _, addressed⟩
      · dsimp only at step
        split_ifs at step
        cases step
        exact ⟨_, _, addressed.congr kept hears rfl rfl rfl rfl rfl rfl⟩
  | fillHeader ip =>
      unfold Step next at step
      dsimp only at step
      split_ifs at step with outside
      cases step
      exact ⟨_, _, addressed.fillHeader outside ip (free rfl)⟩
  | storeHeader =>
      have kept := others (fun same => by cases same) (fun same => by cases same)
      unfold Step next at step
      dsimp only at step
      split_ifs at step with filled
      obtain ⟨i, rfl⟩ := storePacket_cases step
      exact ⟨_, _, addressed.congr kept hears rfl rfl rfl rfl rfl (by rw [filled]; rfl)⟩
  | storePayload =>
      have kept := others (fun same => by cases same) (fun same => by cases same)
      unfold Step next at step
      dsimp only at step
      split_ifs at step with prepared
      obtain ⟨k, -, stored⟩ := Option.bind_eq_some_iff.mp step
      obtain ⟨i, rfl⟩ := storePacket_cases stored
      exact ⟨_, _, addressed.congr kept hears rfl rfl rfl rfl rfl (by rw [prepared]; rfl)⟩
  | storeStatus =>
      have kept := others (fun same => by cases same) (fun same => by cases same)
      obtain ⟨i, last, place, rfl⟩ := storeStatus_cases (b := b) step
      refine ⟨_, _, addressed.congr kept hears rfl rfl rfl rfl rfl ?_⟩
      rw [place]
      cases last <;> rfl
  | handOver =>
      unfold Step next at step
      dsimp only at step
      split_ifs at step with prepared
      exact ⟨_, addressed.handOver prepared step⟩

theorem Addressed.start (initial : Initial b s) : Addressed b s [] [] := by
  have unused : s.first ≠ false := by
    rw [initial.first]
    exact Bool.true_eq_false.mp
  refine ⟨.start initial, ?_, ?_, fun first => absurd first unused, fun filled => ?_, fun o mem => ?_, fun o mem => ?_,
    fun first => absurd first unused⟩
  · rw [Recorded, initial.linkLayerTable, initial.adds]
    rfl
  · rw [initial.sent]
    rfl
  · rw [initial.place] at filled
    cases filled
  · cases mem
  · rw [initial.outputs] at mem
    cases mem

end Addresses

/-- A frame is heard, and a packet sent to where it came from. -/
def answered : List Event :=
  [.arrives (rxPacket 0 bareHeader), .irq true false] ++ outputTo 0xc0a80105 [1, 2] ++ [.transmits]

/-- The header is filled again while the controller has the answer, which then goes to all. -/
example
    : (runChecked (next mbedBoard) (fun _ _ => True) (answered.dropLast ++ outputTo 7 [3] ++ [.transmits])
        bootEthernet).map (·.sent.filterMap ipFrame?)
      = some [[255, 255, 255, 255, 255, 255, 2, 3, 0, 0, 0, 1, 8, 0, 1, 2]] := by
  decide

end Smews.Targets
