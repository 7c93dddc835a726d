import Smews.Library.ByteMemory
import Smews.Library.CommandExchange

/-! The plugin of the PAN manager for a card: `forward_to_apduip`, which sends a packet with APDUs and asks the card for
its packets. It waits in `SCardTransmit` for the response to each command.
-/

namespace Smews.PanManager

open ByteMemory CommandExchange

/-- Where the plugin is: in the main loop of the PAN manager, or in `SCardTransmit` of one of the two loops. `rest` is
what is left of the packet behind the current APDU, `curr` the place of `curr_input_ptr` in `dbuffer`, and `inSize` the
room that `SCardTransmit` is told for the response.
-/
inductive ApduipPlace
  | idle
  | sending (rest : List UInt8) (inSize : Nat)
  | receiving (curr : Nat) (packetLength : Int) (inSize : Nat)
deriving DecidableEq

/-- `forwarded` holds what `forward_to_tun` was given. -/
structure Apduip where
  place : ApduipPlace
  dbuffer : Nat → UInt8
  forwarded : List (List UInt8)

namespace Apduip

/-- `DEV_MTU`. -/
def devMtu : Nat := 1500

/-- What `in_size` is before the first response. -/
def maxResponse : Nat := 255 + 3

/-- `SW1` and `SW2` of the status word at the end of a response. -/
def statusWord (response : List UInt8) : Option (UInt8 × UInt8) := do
  some (← response[response.length - 2]?, ← response[response.length - 1]?)

/-- One round of `apduip_send_packet`, up to the response. -/
def sendPacket (packet : List UInt8) (inSize : Nat) (h : Apduip) : Apduip × Command :=
  let current := packet.take 255
  (
    { h with place := .sending (packet.drop 255) inSize },
    {
      header := ⟨0x80, 0x01, 0x00, 0, UInt8.ofNat current.length⟩
      data := if current = [] then none else some current
    }
  )

/-- One round of `apduip_recv_packet`, up to the response. -/
def recvPacket (sw2 : UInt8) (curr : Nat) (packetLength : Int) (inSize : Nat) (h : Apduip) : Apduip × Command :=
  ({ h with place := .receiving curr packetLength inSize }, { header := ⟨0x80, 0x02, 0x00, 0x00, sw2⟩, data := none })

/-- The loop of `forward_to_apduip`. -/
def receiveAll (sw2 : UInt8) (h : Apduip) : Apduip × Option Command :=
  if sw2 ≠ 0 then (h.recvPacket sw2 0 (-1) maxResponse).map id some else ({ h with place := .idle }, none)

/-- `forward_to_tun`. -/
def forwardToTun (size : Nat) (h : Apduip) : Apduip :=
  { h with forwarded := h.forwarded ++ [bytesAt h.dbuffer 0 size] }

/-- A round of `apduip_recv_packet` behind the response. The length of the packet is in the first one. -/
def received (response : List UInt8) (sw2 : UInt8) (curr : Nat) (packetLength : Int) (h : Apduip)
    : Option (Apduip × Option Command) :=
  let dbuffer := putBytes h.dbuffer curr response
  let h := { h with dbuffer }
  let first := packetLength = -1
  let packetLength :=
    if first then ((dbuffer (curr + 2)).toNat * 256 + (dbuffer (curr + 3)).toNat : Int) else packetLength
  if first ∧ (devMtu : Int) < packetLength then none
  else
    let size := response.length - 2
    let packetLength := packetLength - size
    let curr := curr + size
    if 0 < packetLength then some ((h.recvPacket sw2 curr packetLength response.length).map id some)
    else some ((h.forwardToTun curr).receiveAll sw2)

/-- What follows a response, up to the next command, if there is one. The plugin ends when a check fails, or when the
response does not fit.
-/
def transmitted (response : List UInt8) (h : Apduip) : Option (Apduip × Option Command) := do
  let (sw1, sw2) ← statusWord response
  match h.place with
  | .idle => none
  | .sending rest inSize =>
      if inSize < response.length ∨ sw1 < 0x90 then none
      else if rest ≠ [] then some ((h.sendPacket rest response.length).map id some)
      else some (h.receiveAll sw2)
  | .receiving curr packetLength inSize =>
      if inSize < response.length ∨ sw1 < 0x90 then none else h.received response sw2 curr packetLength

end Apduip

end Smews.PanManager
