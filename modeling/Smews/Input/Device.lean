import Smews.Core.Checksum
import Smews.Input.Receive
import Smews.Library.ByteSource

/-! `smews_receive` byte by byte: what it reads from the device and sums, from the IP header to
the end of the segment. The work on a segment is the one of the modules before.
-/

namespace Smews.Input.Device

open Smews.Core ByteSource

--------------------------------------------------
-- Bytes and words
--------------------------------------------------

/-- Two bytes, most significant first. -/
def word16 (high low : UInt8) : UInt16 := high.toUInt16 * 256 + low.toUInt16

/-- Four bytes, most significant first. -/
def word32 (a b c d : UInt8) : UInt32 :=
  (word16 a b).toUInt32 * 65536 + (word16 c d).toUInt32

section Words

variable {σ : Type} (src : Source σ)

/-- `DEV_GETC`. -/
def getc : Reading σ Checksum UInt8 := do
  let c ← Reading.byte src
  Reading.modify (Checksum.add · c)
  pure c

/-- `DEV_GETC16`. -/
def getc16 : Reading σ Checksum UInt16 := do
  let high ← Reading.byte src
  let low ← Reading.byte src
  Reading.modify (Checksum.add16 (word16 high low))
  pure (word16 high low)

/-- `DEV_GETC32`. -/
def getc32 : Reading σ Checksum UInt32 := do
  let a ← Reading.byte src
  let b ← Reading.byte src
  let c ← Reading.byte src
  let d ← Reading.byte src
  Reading.modify (Checksum.add32 (word32 a b c d))
  pure (word32 a b c d)

/-- `checksum_init`. -/
def checksumInit : Reading σ Checksum Unit := Reading.modify fun _ => Checksum.init

/-- `checksum_end`, and the value of `current_checksum` behind it. -/
def checksumEnd : Reading σ Checksum UInt16 := do
  Reading.modify Checksum.finish
  let k ← Reading.state
  pure k.current

/-- Bytes that are read to be summed only. -/
def skip : Nat → Reading σ Checksum Unit
  | 0 => pure ()
  | n + 1 => do
      let _ ← getc src
      skip n

/-- The rest of the options, in words. -/
def skipWords : Nat → Reading σ Checksum Unit
  | 0 => pure ()
  | n + 1 => do
      let _ ← getc32 src
      skipWords n

end Words

--------------------------------------------------
-- Headers
--------------------------------------------------

/-- What is kept of an IP header. `packet_length` does not count the header itself. -/
structure IpHeader where
  packetLength : UInt16
  protocol : UInt8
  srcAddr : UInt32
deriving DecidableEq

/-- The IP header: five words, no fragment, and a checksum that is right. -/
def ipHeader {σ : Type} (src : Source σ) : Reading σ Checksum IpHeader := do
  checksumInit
  let version ← getc src
  Reading.check (version = 0x45)
  let _ ← getc src
  let length ← getc16 src
  let _ ← getc16 src
  let fragment ← getc16 src
  let flags := (fragment >>> 8).toUInt8
  Reading.check (¬ (flags &&& 0x20 ≠ 0 ∨ flags &&& 0x1f ≠ 0))
  Reading.check (fragment.toUInt8 = 0)
  let ttlProtocol ← getc16 src
  let _ ← getc16 src
  let srcAddr ← getc32 src
  let _ ← getc32 src
  let checksum ← checksumEnd
  Reading.check (checksum = 0xffff)
  pure { packetLength := length - 20, protocol := ttlProtocol.toUInt8, srcAddr }

/-- The sender of a segment, all that the search for its connection looks at. -/
def sender (srcAddr : UInt32) (srcPort : UInt16) : TcpSegment :=
  {
    srcAddr, srcPort
    dstPort := 80
    seqno := 0
    ackno := 0
    flags := 0
    window := 0
    options := []
    payload := []
    checksumValid := false
    fits := by decide
  }

/-- The locals of `smews_receive` when the parser is about to run. -/
structure Incoming where
  segment : TcpSegment
  index : Option Nat
  connection : HttpConnection
  segmentLength : UInt16
  newTcpData : Bool
  cleanService : Bool
  freeHandler : Option (Pointer × UInt16)

/-- What the fields up to the flags do to `tmp_connection`. The length is added to the sequence
number when it is positive as an integer.
-/
def incoming (p : Program) (s : Server) (ip : IpHeader) (srcPort : UInt16) (seqno ackno : UInt32)
    (headerLength flags : UInt8)
    : Incoming :=
  let found := findConnection p s (sender ip.srcAddr srcPort)
  let acknowledged := acknowledge found.2 ackno
  let cleared := clearHandler p acknowledged.1
  let segmentLength := ip.packetLength - headerLength.toUInt16
  let seqno :=
    if headerLength.toNat < ip.packetLength.toNat then seqno + segmentLength.toUInt32 else seqno
  let segment := { sender ip.srcAddr srcPort with seqno, ackno, flags }
  let sequenced := sequence segment cleared.1
  {
    segment
    index := found.1
    connection := sequenced.2
    segmentLength
    newTcpData := sequenced.1
    cleanService := acknowledged.2
    freeHandler := cleared.2
  }

/-- The MSS and the other options. `tcp_header_length` is a multiple of four. -/
def tcpOptions {σ : Type} (src : Source σ) (p : Program) (length : UInt8) (c : HttpConnection)
    : Reading σ Checksum HttpConnection :=
  if 4 ≤ length then do
    let _ ← getc16 src
    let mss ← getc16 src
    skipWords src ((length - 4).toNat / 4)
    pure { c with tcpMss := (if p.maxMss < mss then p.maxMss else mss) % 0x1000 }
  else do
    skipWords src (length.toNat / 4)
    pure c

/-- The TCP header. -/
def tcpHeader {σ : Type} (src : Source σ) (p : Program) (s : Server) (ip : IpHeader)
    : Reading σ Checksum Incoming := do
  checksumInit
  let srcPort ← getc16 src
  let dstPort ← getc16 src
  Reading.check (dstPort % 256 = 80)
  let seqno ← getc32 src
  let ackno ← getc32 src
  let offsetFlags ← getc16 src
  let headerLength := ((offsetFlags >>> 8).toUInt8 >>> 4) * 4
  let i := incoming p s ip srcPort seqno ackno headerLength offsetFlags.toUInt8
  let cwnd ← getc16 src
  let _ ← getc32 src
  Reading.modify (Checksum.add32 p.localIpAddr)
  Reading.modify (Checksum.add32 ip.srcAddr)
  Reading.modify (Checksum.add16 ip.packetLength)
  let connection ← tcpOptions src p (headerLength - 20) { i.connection with cwnd }
  pure { i with connection }

--------------------------------------------------
-- The parser
--------------------------------------------------

section Parser

variable {σ : Type} (src : Source σ)

/-- `dopostin` from a call of `in` or a return on, where `length` is `curr_input.length`. When the
device has no byte, the `return 1` of `DEV_GETC` is one of `in`.
-/
def feed (post : Addr) : Cont → Heap → UInt16 → Reader σ Checksum
    → Option (Fed × Heap × UInt16 × Reader σ Checksum)
  | .ret value, h, length, r => some (.returned value, h, length, r)
  | .outC _ _, _, _, _ => none
  | .inC k, h, length, r =>
      if inputEnded h post then
        feed post (k none) h length r
      else if length = 0 then
        some (.suspended (.inResume k), h, length, r)
      else
        match getc src r with
        | (none, r) => feed post (k (some 1)) h length r
        | (some c, r) =>
            match takeByte h post c with
            | none => none
            | some (taken, h) => feed post (k (some taken)) h (length - 1) r

/-- `dopostin` from where it was suspended in `in`. As in the model of a segment it is resumed
with data only: outside of `parsing_post_data` no coroutine of the request is suspended.
-/
def resume (post : Addr) (h : Heap) (length : UInt16) (r : Reader σ Checksum)
    : Option (Fed × Heap × UInt16 × Reader σ Checksum) :=
  match h.sharedStack with
  | .inResume k =>
      if length = 0 then
        none
      else
        match getc src r with
        | (none, r) => feed src post (k (some 1)) h length r
        | (some c, r) =>
            match takeByte h post c with
            | none => none
            | some (taken, h) => feed src post (k (some taken)) h (length - 1) r
  | _ => none

/-- `cr_run` of the input coroutine. -/
def runInput (p : Program) (post : Addr) (h : Heap) (length : UInt16) (r : Reader σ Checksum)
    : Option (Fed × Heap × UInt16 × Reader σ Checksum) :=
  let coroutine := h.coroutine (.postData post)
  match coroutine.currContext.status, coroutine.func with
  | .ready, .postIn handler contentType partNumber filename value => do
      let start ← dopostin p handler
      let name := filename.map fun a (i : Nat) => h.chars a i
      let h := { h with starts := h.starts + 1 }
      feed src post (start h.starts contentType partNumber name value) h length r
  | .active, .postIn _ _ _ _ _ => resume src post h length r
  | _, _ => none

/-- The run of the input coroutine and what follows it, with the counter `x` moved on. -/
def runPostData (p : Program) (post : Addr) (segmentLength x : UInt16) (s : Parse)
    (r : Reader σ Checksum)
    : Option (Flow × UInt16 × Reader σ Checksum) := do
  let lengthTemp := segmentLength - x
  let (fed, heap, length, r) ← runInput src p post s.heap lengthTemp r
  let s := { s with heap }
  let x := x + (lengthTemp - length)
  match fed with
  | .suspended frame =>
      let s := { s with heap := s.heap.crSuspend p (.postData post) frame }
      some (if s.boundary.isSome then .again s else .leave s, x, r)
  | .returned value => (finishInput post value s).map (·, x, r)

/-- The block of `parsing_post_data`. -/
def parsePostData (p : Program) (segmentLength x : UInt16) (s : Parse) (r : Reader σ Checksum)
    : Option (Flow × UInt16 × Reader σ Checksum) := do
  let post ← s.request.postData
  let terminated := (s.heap.coroutine (.postData post)).currContext.status = .terminated
  if terminated ∧ (s.boundary.any fun b => b.index = 255) then
    let s ← s.updateBoundary fun b => { b with index := 0 }
    some (.again (s.setState .initBuffer), x, r)
  else do
    let (prepared, s) ← prepareInput p post s
    if prepared then runPostData src p post segmentLength x s r else some (.quit s, x, r)

/-- One turn of the loop, with the counter `x`. -/
def parseTurn (p : Program) (segmentLength x : UInt16) (s : Parse) (r : Reader σ Checksum)
    : Option (Flow × UInt16 × Reader σ Checksum) := do
  let blobCurr ← s.blob.head?
  if multipartEnded s then
    let request := { s.request with readyToSend := true, parsingState := .ended }
    some (.leave { s with request }, x, r)
  else if s.request.parsingState = .postData then
    if blobCurr < 128 then none else parsePostData src p segmentLength x s r
  else
    match getc src r with
    | (none, r) => some (.quit s, x + 1, r)
    | (some c, r) =>
        match parseByte p c blobCurr s with
        | none => none
        | some (.input s) => parsePostData src p segmentLength (x + 1) s r
        | some flow => some (flow, x + 1, r)

/-- How the loop ends: after it, or in a `return`. -/
inductive Parsed (σ : Type)
  | done (s : Parse) (x : UInt16) (r : Reader σ Checksum)
  | quit (s : Parse) (r : Reader σ Checksum)

/-- The loop. -/
def parseLoop (p : Program) (segmentLength : UInt16)
    : Nat → UInt16 → Parse → Reader σ Checksum → Option (Parsed σ)
  | 0, _, _, _ => none
  | fuel + 1, x, s, r =>
      if x < segmentLength ∧ ¬ s.outputHandler.any HandlerRef.isError then
        match parseTurn src p segmentLength x s r with
        | some (.again s, x, r) => parseLoop p segmentLength fuel x s r
        | some (.leave s, x, r) => some (.done s x r)
        | some (.quit s, _, r) => some (.quit s r)
        | _ => none
      else some (.done s x r)

/-- The parsing of the data of a segment. The result holds the counter `x` and the outcome, or the
heap behind a `return`.
-/
def parseSegment (p : Program) (q : Request) (heap : Heap) (handler : Option HandlerRef)
    (segmentLength : UInt16) (r : Reader σ Checksum)
    : Option ((UInt16 × Outcome ⊕ Heap) × Reader σ Checksum) := do
  let s ← startSegment p q heap handler
  match ← parseLoop src p segmentLength (3 * segmentLength.toNat + 3) 0 s r with
  | .done s x r => (finishSegment p s []).map fun o => (.inl (x, o), r)
  | .quit s r => some (.inr s.heap, r)

end Parser

--------------------------------------------------
-- Packets
--------------------------------------------------

section Packets

variable {σ : Type} (src : Source σ)

/-- `tmp_connection` behind the drop loop. -/
def acknowledgeData (segmentLength : UInt16) (c : HttpConnection) : HttpConnection :=
  if c.outputHandler.isNone ∧ c.tcpState = .established ∧ segmentLength ≠ 0 then
    { c with outputHandler := some .ack }
  else c

/-- What waits for the checksum. -/
def pending (i : Incoming) (connection : HttpConnection) (heap : Heap) : Pending :=
  {
    connection := acknowledgeData i.segmentLength connection
    heap
    dropped := []
    cleanService := i.cleanService
    freeHandler := i.freeHandler
  }

/-- The drop loop. -/
def dropData (i : Incoming) (x : UInt16) (connection : HttpConnection) (heap : Heap)
    (r : Reader σ Checksum)
    : (Pending ⊕ Heap) × Reader σ Checksum :=
  match skip src (i.segmentLength.toNat - x.toNat) r with
  | (none, r) => (.inr heap, r)
  | (some (), r) => (.inl (pending i connection heap), r)

/-- Whether the data of a segment goes to the parser. -/
def Incoming.Parsed (i : Incoming) : Prop :=
  i.segmentLength ≠ 0 ∧ i.connection.tcpState = .established
    ∧ (i.newTcpData ∨ i.connection.outputHandler = none)

instance (i : Incoming) : Decidable i.Parsed := by
  unfold Incoming.Parsed
  infer_instance

/-- The data of a segment, or the heap left behind by a `return`. -/
def receiveData (p : Program) (i : Incoming) (heap : Heap) (r : Reader σ Checksum)
    : Option ((Pending ⊕ Heap) × Reader σ Checksum) := do
  let c := i.connection
  if i.Parsed then
    match ← parseSegment src p c.request heap c.outputHandler i.segmentLength r with
    | (.inl (x, o), r) => some (dropData src i x (afterParsing p i.segment.ackno c o) o.heap r)
    | (.inr heap, r) => some (.inr heap, r)
  else
    some (dropData src i 0 c heap r)

/-- The test of the TCP checksum. -/
def checkSegment (p : Program) (i : Incoming) (d : Pending) (s : Server) (r : Reader σ Checksum)
    : Option (Server × Reader σ Checksum) :=
  let r := { r with state := r.state.finish }
  if r.state.current = ~~~ 6 then (commit p i.segment i.index d s).map (·, r) else some (s, r)

/-- A TCP segment. -/
def receiveSegment (p : Program) (s : Server) (ip : IpHeader) (r : Reader σ Checksum)
    : Option (Server × Reader σ Checksum) :=
  match tcpHeader src p s ip r with
  | (none, r) => some (s, r)
  | (some i, r) => do
      match ← receiveData src p i s.heap r with
      | (.inr heap, r) => some ({ s with heap }, r)
      | (.inl d, r) => checkSegment p i d { s with heap := d.heap } r

/-- The payload of a packet that is not TCP: `in` takes it from the device without sums, and
returns the `-1` of `DEV_GET` as a byte.
-/
def payload : Nat → Reader σ Checksum → List UInt8 × Reader σ Checksum
  | 0, r => ([], r)
  | n + 1, r =>
      let (c, r) := Reading.byte src r
      let (rest, r) := payload n r
      (c.getD 0xff :: rest, r)

/-- Whether the payload of a packet of another protocol is read: a handler is registered for it,
and its connection can be allocated.
-/
def readsPayload (p : Program) (s : Server) (ip : IpHeader) : Bool :=
  (p.gpIpGetOutputHandler ip.protocol).isSome && (s.heap.memAlloc p.sizeofConnection).1.isSome

/-- A packet of another protocol. Its connection is added before `dopacketin` reads its payload. -/
def receiveGpIp (p : Program) (s : Server) (ip : IpHeader) (r : Reader σ Checksum)
    : Option (Server × Reader σ Checksum) :=
  if readsPayload p s ip then
    let (payload, r) := payload src ip.packetLength.toNat r
    (smewsReceiveGpIp p ip.srcAddr ip.protocol payload s).map (·, r)
  else
    (smewsReceiveGpIp p ip.srcAddr ip.protocol [] s).map (·, r)

/-- `smews_receive`, once `DEV_DATA_TO_READ` holds. -/
def smewsReceive (p : Program) (s : Server) (r : Reader σ Checksum)
    : Option (Server × Reader σ Checksum) :=
  match ipHeader src r with
  | (none, r) => some (s, r)
  | (some ip, r) =>
      if ip.protocol = 6 then receiveSegment src p s ip r else receiveGpIp src p s ip r

end Packets

end Smews.Input.Device
