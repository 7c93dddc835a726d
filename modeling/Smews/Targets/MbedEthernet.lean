import Smews.Core.LinkLayerCache
import Smews.Library.ByteMemory

/-! The Ethernet driver of the mbed, `eth_input.c`, `eth_output.c`, `arp.c`, `out_buffers.c` and the interrupt handler
of `hardware.c`. The controller fills receive descriptors and empties transmit descriptors behind the back of the
driver.
-/

namespace Smews.Targets

open Smews.Core ByteMemory

--------------------------------------------------
-- Headers
--------------------------------------------------

/-- `EthAddr`. -/
abbrev EthAddr := Vector UInt8 6

/-- The destination of a frame for all. -/
def broadcast : EthAddr := Vector.replicate 6 0xff

/-- `GET_TWO`. -/
def getTwo (data : Nat → UInt8) (idx : Nat) : UInt16 := (data idx).toUInt16 <<< 8 ||| (data (idx + 1)).toUInt16

/-- `GET_FOUR`. -/
def getFour (data : Nat → UInt8) (idx : Nat) : UInt32 :=
  (data idx).toUInt32 <<< 24 ||| (data (idx + 1)).toUInt32 <<< 16 ||| (data (idx + 2)).toUInt32 <<< 8
    ||| (data (idx + 3)).toUInt32

/-- `GET_MAC`. -/
def getMac (data : Nat → UInt8) (idx : Nat) : EthAddr :=
  #v[data idx, data (idx + 1), data (idx + 2), data (idx + 3), data (idx + 4), data (idx + 5)]

/-- `PUT_TWO`. -/
def putTwo (x : UInt16) : List UInt8 := [(x >>> 8).toUInt8, x.toUInt8]

/-- `PUT_FOUR`. -/
def putFour (x : UInt32) : List UInt8 := [(x >>> 24).toUInt8, (x >>> 16).toUInt8, (x >>> 8).toUInt8, x.toUInt8]

/-- `PUT_MAC`. -/
def putMac (x : EthAddr) : List UInt8 := x.toList

/-- `EthHead`. -/
structure EthHead where
  src : EthAddr
  dst : EthAddr
  type : UInt16
deriving DecidableEq

/-- `PROTO_MAC_HLEN`. -/
def protoMacHlen : Nat := 14

/-- `PROTO_IP`. -/
def protoIp : UInt16 := 0x0800

/-- `PROTO_ARP`. -/
def protoArp : UInt16 := 0x0806

/-- `proto_eth_demangle`. -/
def protoEthDemangle (data : Nat → UInt8) : EthHead :=
  { dst := getMac data 0, src := getMac data 6, type := getTwo data 12 }

/-- `proto_eth_mangle`. -/
def protoEthMangle (eh : EthHead) : List UInt8 := putMac eh.dst ++ putMac eh.src ++ putTwo eh.type

/-- `proto_eth_addr_is_multicast`. -/
def protoEthAddrIsMulticast (a : EthAddr) : Bool := a[0] &&& 1 != 0

/-- `ArpHead`. -/
structure ArpHead where
  hardType : UInt16
  protocolType : UInt16
  hlen : UInt8
  plen : UInt8
  opcode : UInt16
  senderMac : EthAddr
  senderIp : UInt32
  targetMac : EthAddr
  targetIp : UInt32
deriving DecidableEq

/-- `PROTO_ARP_HLEN`. -/
def protoArpHlen : Nat := 28

/-- `proto_arp_demangle`. -/
def protoArpDemangle (data : Nat → UInt8) : ArpHead :=
  {
    hardType := getTwo data 0
    protocolType := getTwo data 2
    hlen := data 4
    plen := data 5
    opcode := getTwo data 6
    senderMac := getMac data 8
    senderIp := getFour data 14
    targetMac := getMac data 18
    targetIp := getFour data 24
  }

/-- `proto_arp_mangle`. -/
def protoArpMangle (ah : ArpHead) : List UInt8 :=
  putTwo ah.hardType ++ putTwo ah.protocolType ++ [ah.hlen, ah.plen] ++ putTwo ah.opcode ++ putMac ah.senderMac
    ++ putFour ah.senderIp ++ putMac ah.targetMac ++ putFour ah.targetIp

/-- `proto_ip_get_src`. -/
def protoIpGetSrc (data : Nat → UInt8) : UInt32 := getFour data 12

/-- `proto_ip_get_size`. -/
def protoIpGetSize (data : Nat → UInt8) : UInt16 := getTwo data 2

--------------------------------------------------
-- The driver
--------------------------------------------------

/-- `TX_DESCRIPTORS`. -/
def txDescriptors : Nat := 20

/-- `TX_BUFFER_COUNT`. -/
def txBufferCount : Nat := 10

/-- `DEV_MTU`. -/
def devMtu : Nat := 1500

/-- The board. `clock` gives the time at each use of the address cache. `ready` is
`rflpc_eth_get_current_tx_packet_descriptor`, for the descriptors that the controller has and the one that is asked for:
it gives none that the controller has.
-/
structure Board where
  localIpAddr : UInt32
  localEthAddr : EthAddr
  maxEntry : MaxEntry
  txBufferSize : Nat
  clock : Nat → UInt32
  ready : List Nat → Nat → Bool
  ready_free : ∀ queue i, ready queue i → i ∉ queue

/-- What a receive descriptor points to: a buffer, with the bytes that the controller put there. -/
structure RxPacket where
  buffer : Nat
  bytes : Nat → UInt8

/-- What the driver lets transmit descriptors point to: `ethernet_header`, one of `_tx_buffers`, or
`_arp_reply_buffer`.
-/
inductive TxPointer
  | ethernetHeader
  | txBuffer (i : Nat)
  | arpReplyBuffer
deriving DecidableEq

/-- A transmit descriptor; `beingSent` when its status is `PACKET_BEEING_SENT_MAGIC`. -/
structure TxDescriptor where
  packet : Option TxPointer
  size : Nat
  last : Bool
  beingSent : Bool
deriving DecidableEq

/-- `out_buffer_t`. -/
structure OutBuffer where
  buff : Nat → UInt8
  inUse : Bool

/-- Where the main program is: outside of the driver, in `mbed_eth_get_byte` between the last byte of a frame and the
return of its buffer, or in `mbed_eth_output_done`: behind `mbed_eth_fill_header`, in `mbed_eth_prepare_fragment` of a
descriptor between the store of the packet and that of its status, for the header or for the `last` fragment, behind
the first of its calls, or behind both.
-/
inductive MbedPlace
  | outside
  | givingBack
  | filled
  | storing (i : Nat) (last : Bool)
  | headerPrepared
  | payloadPrepared
deriving DecidableEq

namespace MbedPlace

/-- Whether a descriptor that the controller does not have yet was written. -/
def preparing : MbedPlace → Bool
  | .outside | .givingBack | .filled => false
  | .storing _ _ | .headerPrepared | .payloadPrepared => true

/-- Whether a packet was stored, but not its status. -/
def isStoring : MbedPlace → Bool
  | .storing _ _ => true
  | _ => false

end MbedPlace

/-- A packet that was handed over: its destination, the calls of `add_link_layer_address` up to the look for its
address, and its bytes.
-/
structure Output where
  ip : UInt32
  heard : List (LinkLayerAdd UInt32 EthAddr)
  payload : List UInt8
deriving DecidableEq

/-- The variables of the driver. `rxQueue` holds the receive descriptors that the controller filled and that were not
given back, `txQueue` the transmit descriptors that it has, and `txProduceIndex` is the next one. `returned` is what
`mbed_eth_get_byte` returned so far, `none` standing for -1, `adds` the calls of `add_link_layer_address`, `filledFor`
what `ethernet_header` was filled for, `outputs` the packets that were handed over, and `sent` the fragments of the
frames that were transmitted, `none` for a fragment of a null pointer.
-/
structure MbedEthernet where
  rxQueue : List RxPacket
  currentRxFrame : Option RxPacket
  currentRxFrameSize : Nat
  currentRxFrameIdx : Nat
  linkLayerTable : List (LinkLayerEntry UInt32 EthAddr)
  descriptors : Nat → TxDescriptor
  txProduceIndex : Nat
  txQueue : List Nat
  txBuffers : Nat → OutBuffer
  currentBuffer : Option Nat
  currentBufferSize : Nat
  ethernetHeader : Nat → UInt8
  first : Bool
  arpReplyBuffer : Nat → UInt8
  place : MbedPlace
  returned : List (Option UInt8)
  adds : List (LinkLayerAdd UInt32 EthAddr)
  filledFor : UInt32 × List (LinkLayerAdd UInt32 EthAddr)
  outputs : List Output
  sent : List (List (Option (List UInt8)))

namespace MbedEthernet

variable (b : Board)

/-- A call of `add_link_layer_address`. -/
def learn (ip : UInt32) (linkLayer : EthAddr) (s : MbedEthernet) : MbedEthernet :=
  let a := { ip, linkLayer, now := b.clock s.adds.length }
  { s with linkLayerTable := addLinkLayerAddress s.linkLayerTable a, adds := s.adds ++ [a] }

def setDescriptor (s : MbedEthernet) (i : Nat) (d : TxDescriptor) : MbedEthernet :=
  { s with descriptors := Function.update s.descriptors i d }

--------------------------------------------------
-- Input
--------------------------------------------------

/-- `mbed_process_arp`. The status of the descriptor of a reply stays what it is. -/
def processArp (eth : EthHead) (packet : RxPacket) (s : MbedEthernet) : MbedEthernet :=
  let arpRcv := protoArpDemangle fun i => packet.bytes (protoMacHlen + i)
  if arpRcv.targetIp ≠ b.localIpAddr then s
  else if arpRcv.opcode = 1 then
    let i := s.txProduceIndex
    if ¬ b.ready s.txQueue i then s
    else
      let eth := { eth with dst := eth.src, src := b.localEthAddr }
      let arpSend : ArpHead := {
        hardType := 1
        protocolType := protoIp
        hlen := 6
        plen := 4
        opcode := 2
        senderMac := b.localEthAddr
        senderIp := arpRcv.targetIp
        targetMac := arpRcv.senderMac
        targetIp := arpRcv.senderIp
      }
      let reply := protoEthMangle eth ++ protoArpMangle arpSend
      let d := { s.descriptors i with
        packet := some .arpReplyBuffer
        size := protoMacHlen + protoArpHlen
        last := true
      }
      let s := { s.setDescriptor i d with
        arpReplyBuffer := putBytes s.arpReplyBuffer 0 reply
        txQueue := s.txQueue ++ [i]
        txProduceIndex := (i + 1) % txDescriptors
      }
      s.learn b arpRcv.senderIp arpRcv.senderMac
  else s.learn b arpRcv.senderIp arpRcv.senderMac

/-- `mbed_process_input`, with whether it returns `ETH_INPUT_FREE_PACKET`. -/
def processInput (packet : RxPacket) (s : MbedEthernet) : Bool × MbedEthernet :=
  if s.currentRxFrame.map RxPacket.buffer = some packet.buffer then (false, s)
  else
    let eth := protoEthDemangle packet.bytes
    if eth.type = protoArp then (true, s.processArp b eth packet)
    else if eth.type ≠ protoIp then (true, s)
    else if ¬ protoEthAddrIsMulticast eth.dst ∧ eth.dst ≠ b.localEthAddr then (true, s)
    else
      let ip := fun i => packet.bytes (protoMacHlen + i)
      let s := s.learn b (protoIpGetSrc ip) eth.src
      let size := (protoIpGetSize ip).toNat + protoMacHlen
      (false, { s with
        currentRxFrame := some packet
        currentRxFrameSize := if devMtu ≤ size then devMtu else size
        currentRxFrameIdx := protoMacHlen
      })

/-- The loop of the interrupt handler over the frames that were received, `n` of them at most. -/
def processRx : Nat → MbedEthernet → MbedEthernet
  | 0, s => s
  | n + 1, s =>
      match s.rxQueue with
      | [] => s
      | packet :: rxQueue =>
          match s.processInput b packet with
          | (true, s) => processRx n { s with rxQueue }
          | (false, s) => s

/-- `mbed_eth_get_byte`, up to the return of the buffer behind the last byte. -/
def getByte (s : MbedEthernet) : MbedEthernet :=
  match s.currentRxFrame with
  | none => { s with returned := s.returned ++ [none] }
  | some packet =>
      let c := packet.bytes s.currentRxFrameIdx
      let s := { s with currentRxFrameIdx := s.currentRxFrameIdx + 1, returned := s.returned ++ [some c] }
      if s.currentRxFrameSize ≤ s.currentRxFrameIdx then { s with currentRxFrame := none, place := .givingBack }
      else s

/-- The end of `mbed_eth_get_byte` behind the last byte of a frame. -/
def giveBack (s : MbedEthernet) : MbedEthernet :=
  { s with currentRxFrameSize := 0, currentRxFrameIdx := 0, rxQueue := s.rxQueue.tail, place := .outside }

--------------------------------------------------
-- Output
--------------------------------------------------

/-- `mbed_eth_garbage_tx_buffers` for one descriptor. -/
def garbage (s : MbedEthernet) (i : Nat) : MbedEthernet :=
  let d := s.descriptors i
  if d.beingSent then s
  else
    match d.packet with
    | none => s
    | some (.txBuffer j) =>
        { s.setDescriptor i { d with packet := none } with
          txBuffers := Function.update s.txBuffers j { s.txBuffers j with inUse := false } }
    | some _ => s.setDescriptor i { d with packet := none }

/-- `mbed_eth_garbage_tx_buffers`. -/
def garbageTxBuffers (s : MbedEthernet) : MbedEthernet := (List.range txDescriptors).foldl garbage s

/-- `_eth_irq_handler`, for the interrupts that are pending. -/
def ethIrqHandler (rxDone txDone : Bool) (s : MbedEthernet) : MbedEthernet :=
  let s := if rxDone then s.processRx b txDescriptors else s
  if txDone then s.garbageTxBuffers else s

/-- `mbed_eth_get_tx_buffer`. -/
def getTxBuffer (s : MbedEthernet) : Option (Nat × MbedEthernet) :=
  ((List.range txBufferCount).find? fun i => !(s.txBuffers i).inUse).map fun i =>
    (i, { s with txBuffers := Function.update s.txBuffers i { s.txBuffers i with inUse := true } })

/-- `mbed_eth_prepare_output`; it waits as long as no buffer is free. -/
def prepareOutput (s : MbedEthernet) : Option MbedEthernet :=
  if s.currentBuffer.isSome then some s
  else
    (s.getTxBuffer.or s.garbageTxBuffers.getTxBuffer).map fun (i, s) =>
      { s with currentBuffer := some i, currentBufferSize := 0 }

/-- `mbed_eth_put_nbytes`, and `mbed_eth_put_byte` for one byte; undefined behind the end of a buffer. -/
def putNbytes (bytes : List UInt8) (s : MbedEthernet) : Option MbedEthernet :=
  match s.currentBuffer with
  | none => some s
  | some i =>
      if b.txBufferSize < s.currentBufferSize + bytes.length then none
      else
        let buff := putBytes (s.txBuffers i).buff s.currentBufferSize bytes
        some { s with
          txBuffers := Function.update s.txBuffers i { s.txBuffers i with buff }
          currentBufferSize := s.currentBufferSize + bytes.length
        }

/-- `mbed_eth_fill_header`. -/
def fillHeader (ip : UInt32) (s : MbedEthernet) : MbedEthernet :=
  let ethernetHeader :=
    if s.first then putBytes s.ethernetHeader 6 (putMac b.localEthAddr ++ putTwo protoIp) else s.ethernetHeader
  let dstAddr := (getLinkLayerAddress s.linkLayerTable ip).getD broadcast
  { s with
    ethernetHeader := putBytes ethernetHeader 0 (putMac dstAddr)
    first := false
    place := .filled
    filledFor := (ip, s.adds)
  }

/-- The first part of `mbed_eth_prepare_fragment`, for the descriptor `idx` places behind the next one; it waits as long
as the controller has it.
-/
def storePacket (data : TxPointer) (idx : Nat) (last : Bool) (s : MbedEthernet) : Option MbedEthernet :=
  let i := (s.txProduceIndex + idx) % txDescriptors
  if b.ready s.txQueue i then
    some { s.setDescriptor i { s.descriptors i with packet := some data } with place := .storing i last }
  else none

/-- The rest of `mbed_eth_prepare_fragment`. -/
def storeStatus (size i : Nat) (last : Bool) (s : MbedEthernet) : MbedEthernet :=
  { s.setDescriptor i { s.descriptors i with size, last, beingSent := true } with
    place := if last then .payloadPrepared else .headerPrepared }

/-- The end of `mbed_eth_output_done` behind the two fragments. -/
def handOver (s : MbedEthernet) : Option MbedEthernet :=
  s.currentBuffer.map fun k =>
    { s with
      txQueue := s.txQueue ++ [s.txProduceIndex, (s.txProduceIndex + 1) % txDescriptors]
      txProduceIndex := (s.txProduceIndex + 2) % txDescriptors
      currentBuffer := none
      currentBufferSize := 0
      place := .outside
      outputs := s.outputs ++ [{
        ip := s.filledFor.1
        heard := s.filledFor.2
        payload := bytesAt (s.txBuffers k).buff 0 s.currentBufferSize
      }]
    }

--------------------------------------------------
-- The controller
--------------------------------------------------

/-- The bytes that a transmit descriptor points to. -/
def fragment (s : MbedEthernet) (i : Nat) : Option (List UInt8) :=
  let d := s.descriptors i
  d.packet.map fun
    | .ethernetHeader => bytesAt s.ethernetHeader 0 d.size
    | .txBuffer j => bytesAt (s.txBuffers j).buff 0 d.size
    | .arpReplyBuffer => bytesAt s.arpReplyBuffer 0 d.size

/-- The descriptors of the first frame of a queue. -/
def firstFrame (s : MbedEthernet) : List Nat → List Nat
  | [] => []
  | i :: queue => if (s.descriptors i).last then [i] else i :: firstFrame s queue

/-- The controller transmits a frame, and stores into the status of its descriptors. -/
def transmit (s : MbedEthernet) : MbedEthernet :=
  let frame := s.firstFrame s.txQueue
  {
    s with
    txQueue := s.txQueue.drop frame.length
    descriptors := fun i => if i ∈ frame then { s.descriptors i with beingSent := false } else s.descriptors i
    sent := s.sent ++ [frame.map s.fragment]
  }

--------------------------------------------------
-- Steps
--------------------------------------------------

/-- What happens: the controller puts a frame into a receive buffer that it owns, or transmits one; the interrupt
handler runs; or the main program calls the driver, where an interrupt may come in the middle of two calls.
-/
inductive Event
  | arrives (packet : RxPacket)
  | transmits
  | irq (rxDone txDone : Bool)
  | getByte
  | giveBack
  | prepareOutput
  | putNbytes (bytes : List UInt8)
  | fillHeader (ip : UInt32)
  | storeHeader
  | storePayload
  | storeStatus
  | handOver

def next (s : MbedEthernet) : Event → Option MbedEthernet
  | .arrives packet =>
      if packet.buffer ∈ s.rxQueue.map RxPacket.buffer then none else some { s with rxQueue := s.rxQueue ++ [packet] }
  | .transmits => if s.txQueue = [] then none else some s.transmit
  | .irq rxDone txDone => some (s.ethIrqHandler b rxDone txDone)
  | .getByte => if s.place = .outside then some s.getByte else none
  | .giveBack => if s.place = .givingBack then some s.giveBack else none
  | .prepareOutput => if s.place = .outside then s.prepareOutput else none
  | .putNbytes bytes => if s.place = .outside then s.putNbytes b bytes else none
  | .fillHeader ip => if s.place = .outside then some (s.fillHeader b ip) else none
  | .storeHeader => if s.place = .filled then s.storePacket b .ethernetHeader 0 false else none
  | .storePayload =>
      if s.place = .headerPrepared then s.currentBuffer.bind fun k => s.storePacket b (.txBuffer k) 1 true else none
  | .storeStatus =>
      match s.place with
      | .storing i last => some (s.storeStatus (if last then s.currentBufferSize else protoMacHlen) i last)
      | _ => none
  | .handOver => if s.place = .payloadPrepared then s.handOver else none

def Step (s : MbedEthernet) (event : Event) (s' : MbedEthernet) : Prop := s.next b event = some s'

/-- The driver after `mbed_eth_hardware_init`, whatever the memory of the descriptors and of the buffers holds. -/
structure Initial (s : MbedEthernet) : Prop where
  rxQueue : s.rxQueue = []
  currentRxFrame : s.currentRxFrame = none
  linkLayerTable : s.linkLayerTable = emptyTable b.maxEntry (Vector.replicate 6 0)
  packet : ∀ i, (s.descriptors i).packet = none
  txProduceIndex : s.txProduceIndex = 0
  txQueue : s.txQueue = []
  txBuffers : ∀ i, (s.txBuffers i).inUse = false
  currentBuffer : s.currentBuffer = none
  first : s.first = true
  place : s.place = .outside
  returned : s.returned = []
  adds : s.adds = []
  outputs : s.outputs = []
  sent : s.sent = []

--------------------------------------------------
-- A board
--------------------------------------------------

/-- A board at 192.168.1.2. -/
def mbedBoard : Board :=
  {
    localIpAddr := 0xc0a80102
    localEthAddr := #v[2, 3, 0, 0, 0, 1]
    maxEntry := ⟨10, by decide, by decide⟩
    txBufferSize := 1536
    clock := UInt32.ofNat
    ready := fun queue i => !queue.contains i
    ready_free := fun queue i free mem => by simp [mem] at free
  }

/-- The driver when memory holds zeros. -/
def bootEthernet : MbedEthernet :=
  {
    rxQueue := []
    currentRxFrame := none
    currentRxFrameSize := 0
    currentRxFrameIdx := 0
    linkLayerTable := emptyTable mbedBoard.maxEntry (Vector.replicate 6 0)
    descriptors := fun _ => ⟨none, 0, false, false⟩
    txProduceIndex := 0
    txQueue := []
    txBuffers := fun _ => ⟨fun _ => 0, false⟩
    currentBuffer := none
    currentBufferSize := 0
    ethernetHeader := fun _ => 0
    first := true
    arpReplyBuffer := fun _ => 0
    place := .outside
    returned := []
    adds := []
    filledFor := (0, [])
    outputs := []
    sent := []
  }

theorem bootEthernet_initial : Initial mbedBoard bootEthernet :=
  ⟨rfl, rfl, rfl, fun _ => rfl, rfl, rfl, fun _ => rfl, rfl, rfl, rfl, rfl, rfl, rfl, rfl⟩

/-- A frame in a receive buffer. -/
def rxPacket (buffer : Nat) (bytes : List UInt8) : RxPacket := ⟨buffer, fun i => bytes.getD i 0⟩

/-- A frame for the board, with an IP header from 192.168.1.5 and nothing behind it. -/
def bareHeader : List UInt8 :=
  [2, 3, 0, 0, 0, 1, 2, 3, 0, 0, 0, 9, 8, 0, 0x45, 0, 0, 20, 0, 0, 0, 0, 64, 1, 0, 0, 192, 168, 1, 5, 192, 168, 1, 2]

end MbedEthernet

end Smews.Targets
