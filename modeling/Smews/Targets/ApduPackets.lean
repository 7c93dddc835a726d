import Smews.Targets.Funcard7

/-! What a card and the plugin exchange: the card reads the packets from the tun interface, and the plugin forwards the
packets of the card.
-/

namespace Smews.Targets

open ByteMemory CommandExchange PanManager Runs

namespace ApduLink

--------------------------------------------------
-- The plugin
--------------------------------------------------

/-- A packet that the plugin forwards whole: as long as its IP header says, no multiple of the size of an APDU, and with
room for a status word behind it.
-/
structure Proper (packet : List UInt8) : Prop where
  header : 4 ≤ packet.length
  totalLength : packet.length = (packet.getD 2 0).toNat * 256 + (packet.getD 3 0).toNat
  fits : packet.length + 2 ≤ Apduip.devMtu
  partial_ : packet.length % apduSize.toNat ≠ 0

theorem proper_iff (packet : List UInt8)
    : Proper packet ↔ 4 ≤ packet.length
      ∧ packet.length = (packet.getD 2 0).toNat * 256 + (packet.getD 3 0).toNat
      ∧ packet.length + 2 ≤ Apduip.devMtu ∧ packet.length % apduSize.toNat ≠ 0 := by
  constructor
  · rintro ⟨header, totalLength, fits, partial_⟩
    exact ⟨header, totalLength, fits, partial_⟩
  · rintro ⟨header, totalLength, fits, partial_⟩
    exact ⟨header, totalLength, fits, partial_⟩

/-- What `packet_length` is, when the plugin has some bytes of a packet. -/
def Announced (packet : List UInt8) (curr : Nat) (packetLength : Int) : Prop :=
  curr = 0 ∧ packetLength = -1 ∨ curr ≠ 0 ∧ packetLength = packet.length - curr

section Plugin

variable {h : Apduip} {packet done chunk rest : List UInt8} {sw2 : UInt8}

theorem statusWord_append (data : List UInt8) (sw1 sw2 : UInt8)
    : Apduip.statusWord (data ++ [sw1, sw2]) = some (sw1, sw2) := by
  have length : (data ++ [sw1, sw2]).length = data.length + 2 := by simp
  have first : (data ++ [sw1, sw2])[data.length]? = some sw1 := by simp
  have second : (data ++ [sw1, sw2])[data.length + 1]? = some sw2 := by
    rw [List.getElem?_append_right (Nat.le_add_right _ _), Nat.add_sub_cancel_left]
    rfl
  unfold Apduip.statusWord
  rw [length, Nat.add_sub_cancel, show data.length + 2 - 1 = data.length + 1 from rfl, first, second]
  rfl

/-- A response that ends the loop of `apduip_send_packet`. -/
theorem transmitted_sent {inSize : Nat} (place : h.place = .sending [] inSize) (room : 2 ≤ inSize)
    : h.transmitted [0x90, sw2] = some (h.receiveAll sw2) := by
  unfold Apduip.transmitted
  rw [show ([0x90, sw2] : List UInt8) = [] ++ [0x90, sw2] from rfl, statusWord_append, place]
  dsimp only [Option.bind_eq_bind, Option.bind_some]
  rw [if_neg (by exact not_or.mpr ⟨Nat.not_lt.mpr room, by decide⟩), if_neg (not_not.mpr rfl)]

/-- A response behind which the loop goes on. -/
theorem transmitted_more (sw2 : UInt8) {inSize : Nat} (place : h.place = .sending rest inSize) (room : 2 ≤ inSize)
    (more : rest ≠ [])
    : h.transmitted [0x90, sw2] = some ((h.sendPacket rest 2).map id some) := by
  unfold Apduip.transmitted
  rw [show ([0x90, sw2] : List UInt8) = [] ++ [0x90, sw2] from rfl, statusWord_append, place]
  dsimp only [Option.bind_eq_bind, Option.bind_some]
  rw [if_neg (by exact not_or.mpr ⟨Nat.not_lt.mpr room, by decide⟩), if_pos more]
  rfl

/-- The length of a packet is found in its first response. -/
theorem announced_length (sw2 : UInt8) {packetLength : Int} (proper : Proper packet)
    (split : packet = done ++ chunk ++ rest) (announced : Announced packet done.length packetLength)
    (whole : done = [] → 4 ≤ chunk.length) (left : done.length < packet.length)
    : (if packetLength = -1 then
          ((putBytes h.dbuffer done.length (chunk ++ [0x90, sw2]) (done.length + 2)).toNat * 256
            + (putBytes h.dbuffer done.length (chunk ++ [0x90, sw2]) (done.length + 3)).toNat : Int)
        else packetLength) = packet.length - done.length := by
  rcases announced with ⟨first, rfl⟩ | ⟨other, rfl⟩
  · have none : done = [] := List.length_eq_zero_iff.mp first
    subst none
    have long := whole rfl
    have byte (i : Nat) (lt : i < 4) : putBytes h.dbuffer 0 (chunk ++ [0x90, sw2]) i = packet.getD i 0 := by
      unfold putBytes
      have inside : chunk[i]? = some (chunk.get ⟨i, by omega⟩) := List.getElem?_eq_getElem _
      rw [if_pos (Nat.zero_le i), split, Nat.sub_zero, List.nil_append, List.getD_eq_getElem?_getD,
        List.getD_eq_getElem?_getD, List.getElem?_append_left (by omega), List.getElem?_append_left (by omega), inside]
      rfl
    rw [if_pos rfl, List.length_nil, byte 2 (by omega), byte 3 (by omega)]
    have length := proper.totalLength
    push_cast [length]
    omega
  · rw [if_neg (by omega)]

/-- A response that ends with a part of a packet. -/
theorem transmitted_part (sw2 : UInt8) {packetLength : Int} {inSize : Nat} (proper : Proper packet)
    (split : packet = done ++ chunk ++ rest) (place : h.place = .receiving done.length packetLength inSize)
    (announced : Announced packet done.length packetLength) (whole : done = [] → 4 ≤ chunk.length)
    (nonempty : chunk ≠ []) (room : chunk.length + 2 ≤ inSize)
    : h.transmitted (chunk ++ [0x90, sw2]) =
        let h := { h with dbuffer := putBytes h.dbuffer done.length (chunk ++ [0x90, sw2]) }
        if rest ≠ [] then
          some ((h.recvPacket sw2 (done ++ chunk).length rest.length (chunk.length + 2)).map id some)
        else some ((h.forwardToTun (done ++ chunk).length).receiveAll sw2) := by
  have some_ : 0 < chunk.length := List.length_pos_iff.mpr nonempty
  have total : packet.length = done.length + chunk.length + rest.length := by
    rw [split, List.length_append, List.length_append]
  have response : (chunk ++ [0x90, sw2]).length = chunk.length + 2 := by simp
  have length := announced_length (h := h) sw2 proper split announced whole (by omega)
  have fits := proper.fits
  unfold Apduip.transmitted
  rw [statusWord_append, place]
  dsimp only [Option.bind_eq_bind, Option.bind_some]
  rw [if_neg (by rw [response]; simpa using room)]
  unfold Apduip.received
  dsimp only
  rw [length, if_neg (by omega), response, Nat.add_sub_cancel, List.length_append]
  have left : ((packet.length : Int) - done.length - chunk.length) = rest.length := by omega
  rw [left]
  by_cases more : rest = []
  · subst more
    rw [if_neg (by simp), if_neg (not_not.mpr rfl)]
    rfl
  · rw [if_pos (by simpa using List.length_pos_iff.mpr more), if_pos more]
    rfl

/-- What the plugin has of a packet then. -/
theorem bytesAt_part (stored : bytesAt h.dbuffer 0 done.length = done)
    : bytesAt (putBytes h.dbuffer done.length (chunk ++ [0x90, sw2])) 0 (done ++ chunk).length = done ++ chunk := by
  have new := bytesAt_putBytes h.dbuffer done.length (chunk ++ [0x90, sw2])
  rw [List.length_append, bytesAt_add] at new
  rw [List.length_append, bytesAt_add, Nat.zero_add, bytesAt_putBytes_other _ (.inl (by rw [Nat.zero_add])), stored,
    (List.append_inj new (by rw [length_bytesAt])).1]

end Plugin

--------------------------------------------------
-- From the plugin to the card
--------------------------------------------------

/-- The card reads a packet: the current APDU holds the bytes `unsent`, and the plugin the bytes `rest` behind them. -/
structure Input (l : ApduLink) (unsent rest : List UInt8) : Prop where
  place : l.place = .running
  terminal : ∃ data, l.terminal = some ⟨⟨l.header, some data⟩, .procedure, unsent, [], []⟩
  ins : l.header.ins = 0x01
  p2 : l.header.p2 = 0
  counted : l.currRead.toNat + unsent.length = l.maxRead.toNat
  host : ∃ inSize, l.host.place = .sending rest inSize ∧ 2 ≤ inSize

/-- The plugin sends what is left of a packet. -/
structure Sends (l : ApduLink) (bytes : List UInt8) : Prop where
  nonempty : bytes ≠ []
  terminal : l.terminal = some (.start ⟨⟨0x80, 0x01, 0, 0, UInt8.ofNat (bytes.take 255).length⟩, some (bytes.take 255)⟩)
  host : ∃ inSize, l.host.place = .sending (bytes.drop 255) inSize ∧ 2 ≤ inSize

section Input

variable {l : ApduLink} {unsent rest bytes : List UInt8} {byte : UInt8}

theorem sendPacket_command (nonempty : bytes ≠ []) (inSize : Nat) (h : Apduip)
    : h.sendPacket bytes inSize = ({ h with place := .sending (bytes.drop 255) inSize },
        ⟨⟨0x80, 0x01, 0, 0, UInt8.ofNat (bytes.take 255).length⟩, some (bytes.take 255)⟩) := by
  have some_ : bytes.take 255 ≠ [] := by
    cases bytes with
    | nil => exact absurd rfl nonempty
    | cons byte bytes => simp
  unfold Apduip.sendPacket
  dsimp only
  rw [if_neg some_]

theorem Sends.getApdu (sends : Sends l bytes) (then_ : Awaiting)
    : ∃ l', l.getApdu then_ = resume l' then_ ∧ l'.returned = l.returned ∧ l'.host = l.host
      ∧ Input { l' with currRead := 0, maxRead := l'.header.p3 } (bytes.take 255) (bytes.drop 255) := by
  refine ⟨_, getApdu_start sends.terminal (checkApdu_none rfl (.inl rfl)) then_, rfl, rfl, ?_⟩
  refine ⟨rfl, ⟨_, rfl⟩, rfl, rfl, ?_, sends.host⟩
  have short : (bytes.take 255).length ≤ 255 := List.length_take_le _ _
  show (0 : UInt8).toNat + (bytes.take 255).length = (UInt8.ofNat (bytes.take 255).length).toNat
  rw [UInt8.toNat_ofNat', Nat.mod_eq_of_lt (by omega)]
  exact Nat.zero_add _

/-- A byte is read. -/
theorem Input.getByte (input : Input l (byte :: unsent) rest)
    : ∃ l', l.getByte = some l' ∧ l'.returned = l.returned ++ [byte] ∧ l'.host = l.host ∧ Input l' unsent rest := by
  obtain ⟨place, ⟨data, terminal⟩, ins, p2, counted, host⟩ := input
  have asked := Terminal.take_one (t := ⟨⟨l.header, some data⟩, .procedure, byte :: unsent, [], []⟩) rfl rfl rfl
    (by dsimp only; rw [ins]; decide)
  unfold ApduLink.getByte
  rw [sendFbyteT0_goes terminal asked]
  refine ⟨_, rfl, rfl, rfl, place, ⟨data, rfl⟩, ins, p2, ?_, host⟩
  have last := l.maxRead.toNat_lt
  rw [List.length_cons] at counted
  show (l.currRead + 1).toNat + unsent.length = l.maxRead.toNat
  rw [UInt8.toNat_add, UInt8.toNat_one, Nat.mod_eq_of_lt (by omega)]
  omega

/-- The next APDU of a packet. -/
theorem Input.more (input : Input l [] rest) (more : rest ≠ [])
    : ∃ l', l.sendFWord swOk = some l' ∧ l'.returned = l.returned ∧ l'.host.forwarded = l.host.forwarded
      ∧ Sends l' rest := by
  obtain ⟨place, ⟨data, terminal⟩, ins, p2, counted, inSize, sending, room⟩ := input
  have answer := transmitted_more (h := l.host) swOk.toUInt8 sending room more
  rw [sendPacket_command more] at answer
  refine ⟨_, sendFWord_ends terminal rfl (.inl ins) (by decide) answer, rfl, rfl, more, rfl, 2, rfl, le_rfl⟩

theorem Input.dataToRead (input : Input l unsent rest) : l.devDataToRead = !unsent.isEmpty := by
  have counted := input.counted
  unfold devDataToRead
  rw [input.p2]
  cases unsent with
  | nil =>
      have same : l.currRead = l.maxRead := UInt8.toNat_inj.mp counted
      rw [same]
      simp
  | cons byte unsent =>
      rw [List.length_cons] at counted
      have before : l.currRead < l.maxRead := UInt8.lt_iff_toNat_lt.mpr (by omega)
      simp [before]

theorem Input.currRead (input : Input l unsent rest) : l.currRead = l.maxRead ↔ unsent = [] := by
  have counted := input.counted
  rw [← UInt8.toNat_inj, ← List.length_eq_zero_iff]
  omega

end Input

--------------------------------------------------
-- From the card to the plugin
--------------------------------------------------

/-- The card sends a packet: the plugin has the bytes `done` of it, and the terminal the bytes `chunk` behind them. -/
structure Outgoing (l : ApduLink) (packet done chunk : List UInt8) (phase : Phase) : Prop where
  place : l.place = .running
  terminal : l.terminal = some ⟨⟨l.header, none⟩, phase, [], [], chunk⟩
  ins : l.header.ins = 0x02
  p2 : l.header.p2 = 0
  consumed : l.currRead = l.maxRead
  host : ∃ packetLength inSize, l.host.place = .receiving done.length packetLength inSize
    ∧ Announced packet done.length packetLength ∧ 257 ≤ inSize
  stored : bytesAt l.host.dbuffer 0 done.length = done

/-- The card is to send more of an APDU of `n` bytes. -/
structure Filling (l : ApduLink) (packet done chunk : List UInt8) (n : Nat) : Prop where
  outgoing : Outgoing l packet done chunk (.incoming (n - chunk.length))
  size : n = min 255 (packet.length - done.length)
  room : chunk.length < n
  whole : done.length % 255 = 0
  nwrite : l.nwrite.toNat = chunk.length
  segmentLeft : l.segmentLeft.toNat = packet.length - done.length - n

/-- The card sent all of a packet, but no status word behind it. -/
structure Written (l : ApduLink) (packet : List UInt8) : Prop where
  proper : Proper packet
  outgoing : ∃ done chunk, packet = done ++ chunk ∧ Outgoing l packet done chunk .procedure ∧ chunk ≠ []
    ∧ chunk.length ≤ 255 ∧ (done = [] → 4 ≤ chunk.length)

/-- A status word makes the plugin go on to the packets of the card, with some packets forwarded before. -/
structure Ends (l : ApduLink) (finished : List (List UInt8)) : Prop where
  consumed : l.currRead = l.maxRead
  status : ∀ (word : UInt16) (nwrite : UInt8), (word >>> 8).toUInt8 = 0x90 →
    ∃ host : Apduip, host.forwarded = l.host.forwarded ++ finished
      ∧ sendFWord word { l with nwrite } = some { l with
        nwrite
        host := (host.receiveAll word.toUInt8).1
        terminal := (host.receiveAll word.toUInt8).2.map Terminal.start }

section Output

variable {l : ApduLink} {packet done chunk rest : List UInt8} {finished : List (List UInt8)} {n : Nat} {byte : UInt8}

theorem Input.ends (input : Input l [] []) : Ends l [] := by
  refine ⟨input.currRead.mpr rfl, fun word nwrite status => ⟨l.host, (List.append_nil _).symm, ?_⟩⟩
  obtain ⟨place, ⟨data, terminal⟩, ins, p2, counted, inSize, sending, room⟩ := input
  exact sendFWord_ends (l := { l with nwrite }) terminal rfl (.inl ins) status (transmitted_sent sending room)

theorem Written.ends (written : Written l packet) : Ends l [packet] := by
  obtain ⟨proper, done, chunk, split, outgoing, nonempty, short, whole⟩ := written
  refine ⟨outgoing.consumed, fun word nwrite status => ?_⟩
  obtain ⟨place, terminal, ins, p2, consumed, ⟨packetLength, inSize, receiving, announced, room⟩, stored⟩ := outgoing
  have split' : packet = done ++ chunk ++ [] := by rw [List.append_nil, split]
  have answer := transmitted_part word.toUInt8 proper split' receiving announced whole nonempty (by omega)
  dsimp only at answer
  rw [if_neg (not_not.mpr rfl)] at answer
  refine ⟨_, ?_, sendFWord_ends (l := { l with nwrite }) terminal rfl (.inr ins) status answer⟩
  unfold Apduip.forwardToTun
  dsimp only
  rw [bytesAt_part stored, split]

/-- The card waits for the next packet. -/
theorem Ends.initRead (ends : Ends l finished) (then_ : Awaiting)
    : ∃ l', l.initRead then_ = some l' ∧ l'.place = .waiting then_ ∧ l'.terminal = none ∧ l'.host.place = .idle
      ∧ l'.host.forwarded = l.host.forwarded ++ finished ∧ l'.returned = l.returned := by
  obtain ⟨host, forwarded, sent⟩ := ends.status swOk l.nwrite (by decide)
  have idle : host.receiveAll swOk.toUInt8 = ({ host with place := .idle }, none) := rfl
  rw [idle] at sent
  refine ⟨{ l with place := .waiting then_, host := { host with place := .idle }, terminal := none }, ?_, rfl, rfl, rfl,
    forwarded, rfl⟩
  unfold ApduLink.initRead
  rw [show l.sendFWord swOk = _ from sent]
  exact getApdu_none (l := { l with host := { host with place := .idle }, terminal := none }) rfl then_

/-- The size of an APDU and the status word that announces it. -/
theorem swOk_or (size : UInt8)
    : ((swOk ||| size.toUInt16) >>> 8).toUInt8 = 0x90 ∧ (swOk ||| size.toUInt16).toUInt8 = size := by
  have small := size.toNat_lt
  have word : (swOk ||| size.toUInt16).toNat = 0x9000 + size.toNat := by
    rw [UInt16.toNat_or, UInt8.toNat_toUInt16]
    exact (Nat.shiftLeft_add_eq_or_of_lt (i := 8) (by omega) 0x90).symm
  constructor
  · rw [← UInt8.toNat_inj, UInt16.toNat_toUInt8, UInt16.toNat_shiftRight, word]
    simp only [UInt16.reduceToNat, UInt8.reduceToNat, Nat.reduceMod, Nat.shiftRight_eq_div_pow, Nat.reducePow]
    omega
  · rw [← UInt8.toNat_inj, UInt16.toNat_toUInt8, word]
    omega

/-- The size of the next APDU. -/
theorem outSize_toNat (len : UInt16) : (if 255 < len then 255 else len.toUInt8).toNat = min 255 len.toNat := by
  split_ifs with long
  · rw [UInt16.lt_iff_toNat_lt] at long
    exact (min_eq_left (Nat.le_of_lt long)).symm
  · rw [UInt16.lt_iff_toNat_lt, Nat.not_lt] at long
    have short : len.toNat ≤ 255 := long
    rw [UInt16.toNat_toUInt8]
    omega

theorem outSize_ne_zero {size : UInt8} {left : Nat} (size_eq : size.toNat = min 255 left) (more : 0 < left)
    : size ≠ 0 := by
  rintro rfl
  rw [UInt8.toNat_zero] at size_eq
  omega

/-- What `segment_left` is then. -/
theorem segmentLeft_toNat {size : UInt8} {len : UInt16} (size_eq : size.toNat = min 255 len.toNat)
    : (len - size.toUInt16).toNat = len.toNat - size.toNat := by
  have le : size.toUInt16 ≤ len := by
    rw [UInt16.le_iff_toNat_le, UInt8.toNat_toUInt16]
    omega
  rw [UInt16.toNat_sub_of_le _ _ le, UInt8.toNat_toUInt16]

/-- The card begins with an APDU of a packet, when the plugin asks for it. -/
theorem getApdu_output (packet done : List UInt8) {size : UInt8} {packetLength : Int} {inSize : Nat}
    (terminal : l.terminal = some (.start ⟨⟨0x80, 0x02, 0x00, 0x00, size⟩, none⟩))
    (size_eq : size.toNat = min 255 (packet.length - done.length)) (left : done.length < packet.length)
    (whole : done.length % 255 = 0) (consumed : l.currRead = l.maxRead)
    (host : l.host.place = .receiving done.length packetLength inSize)
    (announced : Announced packet done.length packetLength) (room : 257 ≤ inSize)
    (stored : bytesAt l.host.dbuffer 0 done.length = done) (nwrite : l.nwrite = 0)
    (segmentLeft : l.segmentLeft.toNat = packet.length - done.length - size.toNat)
    : ∃ l', l.getApdu .output = some l' ∧ l'.returned = l.returned ∧ l'.host = l.host
      ∧ Filling l' packet done [] size.toNat := by
  have owed : (⟨⟨⟨0x80, 0x02, 0x00, 0x00, size⟩, none⟩, .procedure, [], [], []⟩ : Terminal).owed = size.toNat := by
    show (if size = 0 then 256 else size.toNat) - 0 = size.toNat
    rw [if_neg (outSize_ne_zero size_eq (by omega)), Nat.sub_zero]
  have begun := Terminal.take_all (t := ⟨⟨⟨0x80, 0x02, 0x00, 0x00, size⟩, none⟩, .procedure, [], [], []⟩) rfl rfl
    (by rw [owed]; omega) rfl (by dsimp only; decide)
  rw [owed] at begun
  rw [getApdu_start terminal (checkApdu_none rfl (.inr rfl))]
  refine ⟨_, sendFbyteT0_goes rfl begun, rfl, rfl, ⟨rfl, ?_, rfl, rfl, consumed, ⟨_, _, host, announced, room⟩, stored⟩,
    size_eq, ?_, whole, ?_, segmentLeft⟩
  · rfl
  · rw [size_eq, List.length_nil]
    omega
  · exact congrArg UInt8.toNat nwrite

theorem receiveAll_some {size : UInt8} (nonzero : size ≠ 0) (h : Apduip)
    : h.receiveAll size = ({ h with place := .receiving 0 (-1) Apduip.maxResponse },
        some ⟨⟨0x80, 0x02, 0x00, 0x00, size⟩, none⟩) := by
  unfold Apduip.receiveAll
  rw [if_pos nonzero]
  rfl

/-- The card begins to send a packet. -/
theorem Ends.devPrepareOutput (ends : Ends l finished) (proper : Proper packet)
    : ∃ l', l.devPrepareOutput (UInt16.ofNat packet.length) = some l' ∧ l'.returned = l.returned
      ∧ l'.host.forwarded = l.host.forwarded ++ finished ∧ ∃ n, Filling l' packet [] [] n := by
  have fits : packet.length + 2 ≤ 1500 := proper.fits
  have header := proper.header
  have len : (UInt16.ofNat packet.length).toNat = packet.length := by
    rw [UInt16.toNat_ofNat']
    omega
  unfold ApduLink.devPrepareOutput
  dsimp only
  generalize UInt16.ofNat packet.length = short at len
  have size := outSize_toNat short
  generalize (if 255 < short then 255 else short.toUInt8) = outSize at size ⊢
  have nonzero := outSize_ne_zero size (by omega)
  obtain ⟨high, low⟩ := swOk_or outSize
  obtain ⟨host, forwarded, sent⟩ := ends.status (swOk ||| outSize.toUInt16) 0 high
  rw [low, receiveAll_some nonzero] at sent
  rw [sent]
  obtain ⟨l', taken, returned, host', filling⟩ := getApdu_output packet []
    (l := { l with
      nwrite := 0
      segmentLeft := short - outSize.toUInt16
      host := { host with place := .receiving 0 (-1) Apduip.maxResponse }
      terminal := some (.start ⟨⟨0x80, 0x02, 0x00, 0x00, outSize⟩, none⟩) })
    rfl (size.trans (by rw [len]; rfl)) (by rw [List.length_nil]; omega) rfl ends.consumed rfl (.inl ⟨rfl, rfl⟩)
    (by decide) rfl rfl ((segmentLeft_toNat size).trans (by rw [len]; rfl))
  refine ⟨l', taken, returned, ?_, _, filling⟩
  rw [host']
  exact forwarded

/-- The first APDU of a packet holds its length. -/
theorem Filling.long (filling : Filling l packet done chunk n) (proper : Proper packet) (first : done = [])
    : 4 ≤ n := by
  have size := filling.size
  have header := proper.header
  rw [first, List.length_nil] at size
  omega

/-- The card goes on with the next APDU of a packet. -/
theorem Outgoing.devPrepareOutput {len : UInt16} (outgoing : Outgoing l packet done chunk .procedure)
    (proper : Proper packet) (split : packet = done ++ chunk ++ rest) (full : chunk.length = 255) (more : rest ≠ [])
    (whole : done.length % 255 = 0) (left : len.toNat = rest.length)
    : ∃ l', l.devPrepareOutput len = some l' ∧ l'.returned = l.returned ∧ l'.host.forwarded = l.host.forwarded
      ∧ ∃ n, Filling l' packet (done ++ chunk) [] n := by
  have some_ : 0 < rest.length := List.length_pos_iff.mpr more
  have total : packet.length = done.length + 255 + rest.length := by
    rw [split, List.length_append, List.length_append, full]
  obtain ⟨place, terminal, ins, p2, consumed, ⟨packetLength, inSize, receiving, announced, room⟩, stored⟩ := outgoing
  have size := outSize_toNat len
  unfold ApduLink.devPrepareOutput
  dsimp only
  generalize (if 255 < len then 255 else len.toUInt8) = outSize at size ⊢
  have nonzero := outSize_ne_zero size (by omega)
  obtain ⟨high, low⟩ := swOk_or outSize
  have answer := transmitted_part (swOk ||| outSize.toUInt16).toUInt8 proper split receiving announced
    (fun _ => by omega) (List.length_pos_iff.mp (by omega)) (by omega)
  dsimp only at answer
  rw [if_pos more] at answer
  have sent := sendFWord_ends (l := { l with nwrite := 0 }) terminal rfl (.inr ins) high answer
  rw [low] at sent
  rw [sent]
  have length : (done ++ chunk).length = done.length + 255 := by rw [List.length_append, full]
  obtain ⟨l', taken, returned, host', filling⟩ := getApdu_output packet (done ++ chunk)
    (l := { l with
      nwrite := 0
      segmentLeft := len - outSize.toUInt16
      host := { l.host with
        place := .receiving (done ++ chunk).length rest.length (chunk.length + 2)
        dbuffer := putBytes l.host.dbuffer done.length (chunk ++ [0x90, outSize]) }
      terminal := some (.start ⟨⟨0x80, 0x02, 0x00, 0x00, outSize⟩, none⟩) })
    rfl (by omega) (by omega) (by omega) consumed rfl (.inr ⟨by omega, by omega⟩) (by omega) (bytesAt_part stored) rfl
    ((segmentLeft_toNat size).trans (by omega))
  refine ⟨l', taken, returned, ?_, _, filling⟩
  rw [host']

/-- A byte of a packet. It is the last one of the packet, or more of it follows in this APDU or in the next one. -/
theorem Filling.devPut (filling : Filling l packet done chunk n) (proper : Proper packet)
    (split : packet = done ++ chunk ++ byte :: rest)
    : ∃ l', l.devPut byte = some l' ∧ l'.returned = l.returned ∧ l'.host.forwarded = l.host.forwarded
      ∧ (rest = [] ∧ Written l' packet
        ∨ ∃ done' chunk' n', packet = done' ++ chunk' ++ rest ∧ Filling l' packet done' chunk' n') := by
  have total : packet.length = done.length + chunk.length + (rest.length + 1) := by
    rw [split, List.length_append, List.length_append, List.length_cons]
  have long := filling.long proper
  obtain ⟨⟨place, terminal, ins, p2, consumed, host, stored⟩, size, room, whole, nwrite, segmentLeft⟩ := filling
  have data := Terminal.take_data
    (t := ⟨⟨l.header, none⟩, .incoming (n - chunk.length), [], [], chunk⟩) rfl byte
  have grown : (chunk ++ [byte]).length = chunk.length + 1 := by simp
  have split' : packet = done ++ (chunk ++ [byte]) ++ rest := by rw [split]; simp
  have count : (l.nwrite + 1).toNat = chunk.length + 1 := by
    rw [UInt8.toNat_add, UInt8.toNat_one, nwrite, Nat.mod_eq_of_lt (by omega)]
  have full : l.nwrite + 1 = apduSize ↔ chunk.length + 1 = 255 := by
    rw [← UInt8.toNat_inj, count]
    rfl
  unfold ApduLink.devPut
  rw [if_pos place, sendFbyteT0_goes terminal data]
  dsimp only [Option.bind_eq_bind, Option.bind_some]
  by_cases complete : chunk.length + 1 = n
  · have phase : (if n - chunk.length ≤ 1 then Phase.procedure else .incoming (n - chunk.length - 1)) = .procedure :=
      if_pos (by omega)
    rw [phase]
    have outgoing : Outgoing { l with
          nwrite := l.nwrite + 1
          terminal := some ⟨⟨l.header, none⟩, .procedure, [], [], chunk ++ [byte]⟩ } packet done (chunk ++ [byte])
        .procedure :=
      ⟨place, rfl, ins, p2, consumed, host, stored⟩
    by_cases last : chunk.length + 1 = 255
    · have multiple := proper.partial_
      rw [show apduSize.toNat = 255 from rfl] at multiple
      have more : rest ≠ [] := by
        rintro rfl
        rw [List.length_nil] at total
        omega
      rw [if_pos (full.mpr last)]
      obtain ⟨l', prepared, returned, forwarded, n', filling⟩ := outgoing.devPrepareOutput proper split'
        (grown.trans last) more whole (segmentLeft.trans (by omega))
      refine ⟨l', prepared, returned, forwarded, .inr ⟨_, [], n', ?_, filling⟩⟩
      rw [List.append_nil, split']
    · rw [if_neg (mt full.mp last)]
      have none : rest = [] := List.length_eq_zero_iff.mp (by omega)
      subst none
      refine ⟨_, rfl, rfl, rfl, .inl ⟨rfl, proper, done, chunk ++ [byte], by rw [split', List.append_nil], outgoing,
        by simp, by omega, fun first => ?_⟩⟩
      have := long first
      omega
  · have phase : (if n - chunk.length ≤ 1 then Phase.procedure else .incoming (n - chunk.length - 1))
        = .incoming (n - (chunk.length + 1)) := by
      rw [if_neg (by omega), Nat.sub_sub]
    rw [phase, if_neg (mt full.mp (by omega))]
    refine ⟨_, rfl, rfl, rfl, .inr ⟨done, chunk ++ [byte], n, split',
      ⟨place, ?_, ins, p2, consumed, host, stored⟩, size, by omega, whole, count.trans grown.symm, segmentLeft⟩⟩
    rw [grown]

theorem Filling.more (filling : Filling l packet done chunk n) (split : packet = done ++ chunk ++ rest)
    : rest ≠ [] := by
  rintro rfl
  have size := filling.size
  have room := filling.room
  have total := congrArg List.length split
  rw [List.length_append, List.length_append, List.length_nil] at total
  omega

/-- The rest of a packet, by induction on it. -/
theorem Filling.puts (filling : Filling l packet done chunk n) (proper : Proper packet)
    (split : packet = done ++ chunk ++ rest)
    : ∃ l', rest.foldlM ApduLink.devPut l = some l' ∧ l'.returned = l.returned
      ∧ l'.host.forwarded = l.host.forwarded ∧ Written l' packet := by
  induction rest generalizing l done chunk n with
  | nil => exact absurd rfl (filling.more split)
  | cons byte rest ih =>
      obtain ⟨l', put, returned, forwarded, next⟩ := filling.devPut proper split
      rw [List.foldlM_cons, put]
      rcases next with ⟨rfl, written⟩ | ⟨done', chunk', n', split', filling'⟩
      · exact ⟨l', rfl, returned, forwarded, written⟩
      · obtain ⟨l'', puts, returned', forwarded', written⟩ := ih filling' split'
        exact ⟨l'', puts, returned'.trans returned, forwarded'.trans forwarded, written⟩

end Output

--------------------------------------------------
-- Runs
--------------------------------------------------

/-- The bytes of a packet that the card did not read yet, in the terminal or still in the plugin. -/
def unread (l : ApduLink) : List UInt8 :=
  match l.terminal, l.host.place with
  | some t, .sending rest _ => t.unsent ++ rest
  | _, _ => []

/-- The packet that the card sent with its last command, which did not end yet. -/
def unended (l : ApduLink) : List (List UInt8) :=
  match l.terminal, l.host.place with
  | some t, .receiving curr _ _ => [bytesAt l.host.dbuffer 0 curr ++ t.received]
  | _, _ => []

/-- The bytes that the plugin is to send to the card. -/
def Event.bytes : Event → List UInt8
  | .packet bytes => bytes
  | _ => []

/-- The packet that the card writes. -/
def Event.written : Event → List (List UInt8)
  | .output bytes => [bytes]
  | _ => []

/-- The card only writes packets that the plugin can forward, each when the last packet was read whole. -/
def Writable (l : ApduLink) : Event → Prop
  | .output packet => l.unread = [] ∧ Proper packet
  | _ => True

/-- Between two calls of the driver, or while the card waits for a packet: what is unread, and what did not end yet. -/
inductive Linked (l : ApduLink) : List UInt8 → List (List UInt8) → Prop
  | waiting {then_ : Awaiting} (place : l.place = .waiting then_) (reads : then_ ≠ .output)
      (terminal : l.terminal = none) (host : l.host.place = .idle)
      : Linked l [] []
  | reading {unsent rest : List UInt8} (input : Input l unsent rest) : Linked l (unsent ++ rest) []
  | wrote {packet : List UInt8} (written : Written l packet) : Linked l [] [packet]

section Runs

variable {l l' : ApduLink} {bytes unread unsent rest packet : List UInt8} {finished : List (List UInt8)}
  {then_ : Awaiting} {event : Event}

theorem Linked.views (linked : Linked l unread finished) : l.unread = unread ∧ l.unended = finished := by
  unfold ApduLink.unread ApduLink.unended
  cases linked with
  | waiting place reads terminal host =>
      rw [terminal]
      exact ⟨rfl, rfl⟩
  | reading input =>
      obtain ⟨data, terminal⟩ := input.terminal
      obtain ⟨inSize, sending, room⟩ := input.host
      rw [terminal, sending]
      exact ⟨rfl, rfl⟩
  | wrote written =>
      obtain ⟨proper, done, chunk, split, outgoing, more⟩ := written
      obtain ⟨packetLength, inSize, receiving, more⟩ := outgoing.host
      rw [outgoing.terminal, receiving, split]
      exact ⟨rfl, congrArg (fun bytes => [bytes ++ chunk]) outgoing.stored⟩

/-- The card goes on with a packet that the plugin sends. -/
theorem Sends.resumes (sends : Sends l bytes) (reads : then_ ≠ .output)
    : ∃ l' unread', l.getApdu then_ = some l' ∧ Linked l' unread' [] ∧ l'.returned ++ unread' = l.returned ++ bytes
      ∧ l'.host.forwarded = l.host.forwarded := by
  obtain ⟨l', taken, returned, host, input⟩ := sends.getApdu then_
  rw [taken]
  cases then_ with
  | input =>
      refine ⟨_, _, rfl, .reading input, ?_, congrArg Apduip.forwarded host⟩
      rw [List.take_append_drop]
      exact congrArg (· ++ bytes) returned
  | byte =>
      obtain ⟨byte, rest, rfl⟩ := List.exists_cons_of_ne_nil sends.nonempty
      rw [List.take_succ_cons, List.drop_succ_cons] at input
      obtain ⟨l'', read, returned', host', input'⟩ := input.getByte
      refine ⟨l'', _, read, .reading input', ?_, ?_⟩
      · rw [List.take_append_drop, returned']
        show l'.returned ++ [byte] ++ rest = l.returned ++ byte :: rest
        rw [returned, List.append_assoc, List.singleton_append]
      · rw [host']
        exact congrArg Apduip.forwarded host
  | output => exact absurd rfl reads

/-- The plugin reads a packet from the tun interface. -/
theorem Linked.arrival (linked : Linked l unread finished) (permits : l.Permits (.packet bytes))
    : ∃ l' unread', l.perform (.packet bytes) = some l' ∧ Linked l' unread' finished
      ∧ l'.returned ++ unread' = l.returned ++ unread ++ bytes ∧ l'.host.forwarded = l.host.forwarded := by
  obtain ⟨idle, nonempty⟩ := permits
  cases linked with
  | waiting place reads terminal host =>
      unfold ApduLink.perform
      dsimp only
      rw [sendPacket_command nonempty]
      dsimp only
      rw [place, List.append_nil]
      exact Sends.resumes ⟨nonempty, rfl, _, rfl, by decide⟩ reads
  | reading input =>
      obtain ⟨inSize, sending, room⟩ := input.host
      rw [sending] at idle
      cases idle
  | wrote written =>
      obtain ⟨proper, done, chunk, split, outgoing, more⟩ := written
      obtain ⟨packetLength, inSize, receiving, more⟩ := outgoing.host
      rw [receiving] at idle
      cases idle

theorem Linked.ends (linked : Linked l unread finished) (running : l.place = .running) (nothing : unread = [])
    : Ends l finished := by
  cases linked with
  | waiting place reads terminal host =>
      rw [place] at running
      cases running
  | reading input =>
      obtain ⟨rfl, rfl⟩ := List.append_eq_nil_iff.mp nothing
      exact input.ends
  | wrote written => exact written.ends

theorem Written.consumed (written : Written l packet) : l.currRead = l.maxRead ∧ l.header.p2 = 0 := by
  obtain ⟨proper, done, chunk, split, outgoing, more⟩ := written
  exact ⟨outgoing.consumed, outgoing.p2⟩

/-- The card asks for the next APDU, or for the next packet. -/
theorem Linked.initRead (linked : Linked l unread finished) (running : l.place = .running)
    (consumed : l.currRead = l.maxRead) (reads : then_ ≠ .output)
    : ∃ l' unread', l.initRead then_ = some l' ∧ Linked l' unread' []
      ∧ l'.returned ++ unread' = l.returned ++ unread ∧ l'.host.forwarded = l.host.forwarded ++ finished := by
  by_cases none : unread = []
  · obtain ⟨l', read, place, terminal, host, forwarded, returned⟩ := (linked.ends running none).initRead then_
    subst none
    exact ⟨l', [], read, .waiting place reads terminal host, congrArg (· ++ []) returned, forwarded⟩
  · cases linked with
    | waiting place reads' terminal host => exact absurd rfl none
    | wrote written => exact absurd rfl none
    | @reading unsent rest input =>
        obtain rfl := input.currRead.mp consumed
        obtain ⟨l', sent, returned, forwarded, sends⟩ := input.more none
        obtain ⟨l'', unread', taken, linked, read, forwarded'⟩ := sends.resumes reads
        refine ⟨l'', unread', ?_, linked, ?_, ?_⟩
        · unfold ApduLink.initRead
          rw [sent]
          exact taken
        · rw [read, returned, List.nil_append]
        · rw [forwarded', forwarded, List.append_nil]

/-- The card reads a byte. -/
theorem Linked.get (linked : Linked l unread finished) (running : l.place = .running)
    : ∃ l' unread' finished', l.devGet = some l' ∧ Linked l' unread' finished'
      ∧ l'.returned ++ unread' = l.returned ++ unread
      ∧ l'.host.forwarded ++ finished' = l.host.forwarded ++ finished := by
  unfold devGet
  by_cases consumed : l.currRead = l.maxRead
  · rw [if_pos consumed]
    obtain ⟨l', unread', read, linked', returned, forwarded⟩ :=
      linked.initRead running consumed (by decide : Awaiting.byte ≠ .output)
    exact ⟨l', unread', [], read, linked', returned, (List.append_nil _).trans forwarded⟩
  · rw [if_neg consumed]
    cases linked with
    | waiting place reads terminal host =>
        rw [place] at running
        cases running
    | wrote written => exact absurd written.consumed.1 consumed
    | @reading unsent rest input =>
        obtain ⟨byte, unsent, rfl⟩ := List.exists_cons_of_ne_nil (mt input.currRead.mpr consumed)
        obtain ⟨l', read, returned, host, input'⟩ := input.getByte
        refine ⟨l', _, [], read, .reading input', ?_, by rw [host]⟩
        rw [returned]
        simp

/-- The card writes a packet. -/
theorem Linked.output (linked : Linked l [] finished) (running : l.place = .running) (proper : Proper packet)
    : ∃ l', l.perform (.output packet) = some l' ∧ Linked l' [] [packet] ∧ l'.returned = l.returned
      ∧ l'.host.forwarded = l.host.forwarded ++ finished := by
  obtain ⟨l', prepared, returned, forwarded, n, filling⟩ := (linked.ends running rfl).devPrepareOutput proper
  obtain ⟨l'', puts, returned', forwarded', written⟩ := filling.puts proper (List.nil_append packet).symm
  refine ⟨l'', ?_, .wrote written, returned'.trans returned, forwarded'.trans forwarded⟩
  unfold perform
  dsimp only [Option.bind_eq_bind]
  rw [prepared]
  exact puts

theorem Linked.consumed (linked : Linked l unread finished) (running : l.place = .running)
    (read : l.devDataToRead = false)
    : l.currRead = l.maxRead := by
  cases linked with
  | waiting place reads terminal host =>
      rw [place] at running
      cases running
  | wrote written => exact written.consumed.1
  | @reading unsent rest input =>
      rw [input.dataToRead] at read
      exact input.currRead.mpr (by simpa using read)

/-- Whatever happens next, nothing fails. -/
theorem Linked.perform (linked : Linked l unread finished) (permits : l.Permits event) (writable : l.Writable event)
    : ∃ l' unread' finished', l.perform event = some l' ∧ Linked l' unread' finished'
      ∧ l'.returned ++ unread' = l.returned ++ unread ++ event.bytes
      ∧ l'.host.forwarded ++ finished' = l.host.forwarded ++ finished ++ event.written := by
  cases event with
  | packet bytes =>
      obtain ⟨l', unread', read, linked', returned, forwarded⟩ := linked.arrival permits
      refine ⟨l', unread', finished, read, linked', returned, ?_⟩
      rw [forwarded]
      exact (List.append_nil _).symm
  | get =>
      obtain ⟨l', unread', finished', read, linked', returned, forwarded⟩ := linked.get permits
      exact ⟨l', unread', finished', read, linked', returned.trans (List.append_nil _).symm,
        forwarded.trans (List.append_nil _).symm⟩
  | output packet =>
      obtain ⟨running, read⟩ := permits
      obtain ⟨none, proper⟩ := writable
      obtain rfl := linked.views.1.symm.trans none
      obtain ⟨l', wrote, linked', returned, forwarded⟩ := linked.output running proper
      refine ⟨l', [], [packet], wrote, linked', ?_, congrArg (· ++ [packet]) forwarded⟩
      rw [returned]
      exact (List.append_nil _).symm
  | wait =>
      obtain ⟨running, read⟩ := permits
      obtain ⟨l', unread', read, linked', returned, forwarded⟩ :=
        linked.initRead running (linked.consumed running read) (by decide : Awaiting.input ≠ .output)
      refine ⟨l', unread', [], read, linked', returned.trans (List.append_nil _).symm, ?_⟩
      rw [forwarded]
      rfl

/-- A card and a plugin that just started. -/
def bootLink : ApduLink where
  place := .waiting .input
  header := ⟨0x80, 0, 0, 0, 0⟩
  maxRead := 0
  currRead := 0
  nwrite := 0
  segmentLeft := 0
  terminal := none
  host := { place := .idle, dbuffer := fun _ => 0, forwarded := [] }
  returned := []

/-- A packet of some bytes. -/
def packetOf (length : UInt16) : List UInt8 :=
  ([0x45, 0, (length >>> 8).toUInt8, length.toUInt8] : List UInt8) ++ List.replicate (length.toNat - 4) 7

/-- A packet of 300 bytes is read, and two are written. -/
def exchange : List Event :=
  .packet (packetOf 300) :: List.replicate 300 .get ++ [.output (packetOf 300), .output (packetOf 20), .wait]

instance (packet : List UInt8) : Decidable (Proper packet) :=
  decidable_of_iff _ (proper_iff packet).symm

instance (l : ApduLink) : (event : Event) → Decidable (l.Writable event)
  | .output _ => inferInstanceAs (Decidable (_ ∧ _))
  | .packet _ | .get | .wait => inferInstanceAs (Decidable True)

/-- Behind a packet as long as an APDU, the next packet from the tun interface is lost. -/
example
    : (runChecked perform (fun l event => l.Permits event) (.packet (packetOf 20) :: List.replicate 20 .get
        ++ [.output (packetOf 255), .packet (packetOf 30), .get]) bootLink).map (fun l => (l.returned, l.unread))
      = some (packetOf 20, []) := by
  decide +kernel

end Runs

end ApduLink

end Smews.Targets
