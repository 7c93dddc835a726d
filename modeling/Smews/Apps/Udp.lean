import Smews.Apps.Icmp4

/-! `udp.c`: the application that passes datagrams to the callbacks bound to their ports.
-/

namespace Smews.Apps

open Smews.Core

--------------------------------------------------
-- The bindings
--------------------------------------------------

/-- The members of `struct udp_args_t` that callbacks may change. -/
structure UdpHeader where
  srcPort : UInt16
  dstPort : UInt16
  payloadSize : UInt16
  chk : UInt16
deriving DecidableEq, Repr

/-- `struct udp_args_t`. Pointers are numbers, 0 for `NULL`. -/
structure UdpArgs where
  header : UdpHeader
  connectionInfo : Nat
deriving DecidableEq, Repr

/-- What a callback passes to `udp_outc` and `udp_outa`. -/
inductive UdpWrite
  | outc (c : UInt8)
  | outa (array : List UInt8)

/-- `struct udp_callback`. The callbacks may do something else at each call: they are given the number of
calls before. `packet_in` reads the bytes behind the header.
-/
structure UdpCallback where
  srcPort : UInt16
  packetIn : Nat → UdpHeader → List UInt8 → UInt8 × UdpHeader
  packetOut : Nat → UdpHeader → List UdpWrite × UdpHeader
  args : UdpArgs

/-- What happened: `packet_in` of a binding was called for a connection and left these ports in its
arguments; a connection was requested for a binding with these ports; `udp_packet_out` ran for a
connection and called `packet_out` of a binding with these ports, or of none.
-/
inductive UdpCall
  | packetIn (connection : Addr) (binding : Nat) (srcPort dstPort : UInt16) (returned : UInt8)
  | requestSend (connection : Addr) (binding : Nat) (srcPort dstPort : UInt16)
  | packetOut (connection : Addr) (called : Option (Nat × UInt16 × UInt16))
deriving DecidableEq, Repr

/-- The list of the bindings from `_head` on, and what happened so far. -/
structure Udp where
  bindings : List UdpCallback
  calls : List UdpCall

namespace Udp

/-- A store into the arguments of a binding. -/
def setArgs (st : Udp) (binding : Nat) (args : UdpArgs) : Udp :=
  { st with bindings := st.bindings.modify binding fun n => { n with args } }

def addCall (st : Udp) (call : UdpCall) : Udp := { st with calls := st.calls ++ [call] }

/-- `_get_callback`. -/
def getCallback (st : Udp) (srcPort : UInt16) : Option Nat :=
  st.bindings.findIdx? (·.srcPort = srcPort)

/-- `_get_callback_from_connection`. -/
def getCallbackFromConnection (st : Udp) (connection : Nat) : Option Nat :=
  st.bindings.findIdx? (·.args.connectionInfo = connection)

/-- The first binding that stores a pointer is found. -/
theorem getCallbackFromConnection_eq {st : Udp} {binding pointer : Nat} {n : UdpCallback}
    (here : st.bindings[binding]? = some n) (stored : n.args.connectionInfo = pointer)
    (first : ∀ j < binding, ∀ m, st.bindings[j]? = some m → m.args.connectionInfo ≠ pointer)
    : st.getCallbackFromConnection pointer = some binding := by
  obtain ⟨lt, rfl⟩ := List.getElem?_eq_some_iff.mp here
  refine List.findIdx?_eq_some_iff_getElem.mpr ⟨lt, by simpa using stored, fun j before => ?_⟩
  simpa using first j before _ (List.getElem?_eq_getElem (before.trans lt))

@[simp] theorem setArgs_calls (st : Udp) (binding : Nat) (args : UdpArgs)
    : (st.setArgs binding args).calls = st.calls :=
  rfl

theorem setArgs_other {st : Udp} {binding j : Nat} (args : UdpArgs) (other : j ≠ binding)
    : (st.setArgs binding args).bindings[j]? = st.bindings[j]? := by
  simp [setArgs, other.symm]

theorem setArgs_self {st : Udp} {binding : Nat} {n : UdpCallback} (args : UdpArgs)
    (here : st.bindings[binding]? = some n)
    : (st.setArgs binding args).bindings[binding]? = some { n with args } := by
  simp [setArgs, here]

@[simp] theorem addCall_bindings (st : Udp) (call : UdpCall) : (st.addCall call).bindings = st.bindings :=
  rfl

@[simp] theorem addCall_calls (st : Udp) (call : UdpCall) : (st.addCall call).calls = st.calls ++ [call] :=
  rfl

end Udp

--------------------------------------------------
-- The handlers
--------------------------------------------------

variable (place : Addr → Nat)

/-- `udp_packet_in`: what it returns, and what it leaves. The block of a connection lies at its
place. Past the end of the packet zeros are read.
-/
def udpPacketIn (info : ConnectionInfo) (packet : List UInt8) (st : Udp) : UInt8 × Udp :=
  let word (i : Nat) : UInt16 := ui16 (packet.getD i 0) (packet.getD (i + 1) 0)
  let sp := word 0
  let dp := word 2
  match st.getCallback dp with
  | none => (0, st)
  | some binding =>
      match st.bindings[binding]? with
      | none => (0, st)
      | some n =>
          let header : UdpHeader := {
            srcPort := sp
            dstPort := dp
            payloadSize := word 4 - 8
            chk := word 6
          }
          let (returned, header) := n.packetIn st.calls.length header (packet.drop 8)
          let st := st.setArgs binding { header, connectionInfo := place info.connection }
          (returned, st.addCall (.packetIn info.connection binding header.srcPort header.dstPort returned))

/-- `udp_outc` and `udp_outa`: what is in `_udp_output_buffer` after a write. -/
def udpWrite (outputBufferSize : UInt16) (buffer : List UInt8) : UdpWrite → List UInt8
  | .outc c => if outputBufferSize.toNat ≤ buffer.length then buffer else buffer ++ [c]
  | .outa array =>
      if outputBufferSize.toNat ≤ buffer.length + array.length then buffer else buffer ++ array

/-- `udp_packet_out`: the bytes that it passes to `out_c`, and what it leaves. -/
def udpPacketOut (outputBufferSize : UInt16) (info : ConnectionInfo) (st : Udp) : List UInt8 × Udp :=
  match st.getCallbackFromConnection (place info.connection) with
  | none => ([], st.addCall (.packetOut info.connection none))
  | some binding =>
      match st.bindings[binding]? with
      | none => ([], st.addCall (.packetOut info.connection none))
      | some n =>
          let header := n.args.header
          let (writes, left) := n.packetOut st.calls.length header
          let payload := writes.foldl (udpWrite outputBufferSize) []
          let bytes (word : UInt16) : List UInt8 := [(word >>> 8).toUInt8, word.toUInt8]
          let length := UInt16.ofNat (payload.length + 8)
          let st := st.setArgs binding { n.args with header := left }
          (bytes header.srcPort ++ bytes header.dstPort ++ bytes length ++ [0, 0] ++ payload,
            st.addCall (.packetOut info.connection (some (binding, header.srcPort, header.dstPort))))

/-- The bindings after a call of a handler above IP. -/
def udpAfter (outputBufferSize : UInt16) (h : HandlerRef) (st : Udp) : PacketCall → Udp
  | .packetIn h' info payload _ => if h' = h then (udpPacketIn place info payload st).2 else st
  | .packetOut h' info => if h' = h then (udpPacketOut place outputBufferSize info st).2 else st

/-- The handlers of the application, as they are while the bindings have this state. -/
def udp (outputBufferSize : UInt16) (st : Udp) : GpIpHandlers :=
  {
    protocol := 17
    dopacketin := fun _ _ info payload => (udpPacketIn place info payload st).1
    dopacketout := fun _ _ info => (udpPacketOut place outputBufferSize info st).1
  }

section Calls

variable {place}

/-- A datagram is dropped without a binding for its port; otherwise the arguments of this binding are
overwritten.
-/
theorem udpPacketIn_cases (place : Addr → Nat) (info : ConnectionInfo) (packet : List UInt8) (st : Udp)
    : (udpPacketIn place info packet st).1 = 0 ∧ (udpPacketIn place info packet st).2 = st
      ∨ ∃ binding n header,
        st.getCallback (ui16 (packet.getD 2 0) (packet.getD 3 0)) = some binding
        ∧ st.bindings[binding]? = some n
        ∧ (udpPacketIn place info packet st).2
          = (st.setArgs binding { header, connectionInfo := place info.connection }).addCall
            (.packetIn info.connection binding header.srcPort header.dstPort
              (udpPacketIn place info packet st).1) := by
  unfold udpPacketIn
  cases found : st.getCallback (ui16 (packet.getD 2 0) (packet.getD 3 0)) with
  | none => exact .inl ⟨by simp only [found], by simp only [found]⟩
  | some binding =>
      cases here : st.bindings[binding]? with
      | none => exact .inl ⟨by simp only [found, here], by simp only [found, here]⟩
      | some n =>
          right
          simp only [found, here]
          exact ⟨binding, n, _, rfl, here, rfl⟩

/-- The binding that stores the address of the connection first is called. -/
theorem udpPacketOut_called (size : UInt16) {info : ConnectionInfo} {st : Udp} {binding : Nat}
    {n : UdpCallback} (found : st.getCallbackFromConnection (place info.connection) = some binding)
    (here : st.bindings[binding]? = some n)
    : ∃ left, (udpPacketOut place size info st).2
      = (st.setArgs binding { n.args with header := left }).addCall
        (.packetOut info.connection
          (some (binding, n.args.header.srcPort, n.args.header.dstPort))) := by
  unfold udpPacketOut
  simp only [found, here]
  exact ⟨_, rfl⟩

end Calls

end Smews.Apps
