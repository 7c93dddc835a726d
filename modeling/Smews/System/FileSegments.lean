import Smews.Output.FileChecksums
import Smews.System.Ring

/-! The segments of static files: where in its file each of them begins and ends.
-/

namespace Smews.System

open Smews.Core Input Output Runs

variable {p : Program}

--------------------------------------------------
-- The property
--------------------------------------------------

/-- The file that a handler serves. The generated handlers of files have no comet channel. -/
def staticFile (p : Program) (h : HandlerRef) : Option StaticResource :=
  match (p.handler h).data with
  | .file file => if (p.handler h).handlerComet then none else some file
  | _ => none

/-- `index_in_file` of the next segment of a file. -/
def indexInFile (c : HttpConnection) (file : StaticResource) : UInt32 :=
  UInt32.ofNat file.data.length - (c.finalOutseqno - c.nextOutseqno)

/-- `segment_length` of the next segment of a file. -/
def fileSegmentLength (p : Program) (c : HttpConnection) : Nat :=
  min (c.finalOutseqno - c.nextOutseqno).toNat (p.maxOutSize c.tcpMss)

/-- The sequence number at which the response with a file starts. -/
def responseStart (c : HttpConnection) (file : StaticResource) : UInt32 :=
  c.finalOutseqno - UInt32.ofNat file.data.length

/-- The next segment of a file lies inside the file, at a multiple of the size of the chunks that
have precomputed checksums.
-/
structure SegmentInside (p : Program) (c : HttpConnection) (file : StaticResource) : Prop where
  index : indexInFile c file = c.nextOutseqno - responseStart c file
  inside : (indexInFile c file).toNat + fileSegmentLength p c ≤ file.data.length
  aligned : 1 <<< p.chuncksNbits ∣ (indexInFile c file).toNat
  content : filePayload p c file
    = some ((file.data.drop (indexInFile c file).toNat).take (fileSegmentLength p c))

--------------------------------------------------
-- The condition
--------------------------------------------------

/-- A sequence number is one of a response with a file: at the beginning of a chunk, or at the
end.
-/
def OnBoundary (p : Program) (c : HttpConnection) (file : StaticResource) (seqno : UInt32) : Prop :=
  let index := (seqno - responseStart c file).toNat
  index ≤ file.data.length ∧ (1 <<< p.chuncksNbits ∣ index ∨ index = file.data.length)

/-- The first sequence number that is not acknowledged. -/
def unacknowledged (c : HttpConnection) : UInt32 := c.nextOutseqno - c.inflight.toUInt32

/-- Whenever a connection that serves a file goes back to what is not acknowledged, this is on a
boundary of the file.
-/
def BoundaryKept (p : Program) (c : HttpConnection) : Prop :=
  ∀ file ∈ c.outputHandler.bind (staticFile p),
    c.inflight ≠ 0 → OnBoundary p c file (unacknowledged c)

/-- The HTTP connection of a member of the ring. -/
def httpOf (k : Connection) : Option HttpConnection :=
  match k.protocol with
  | .http c => some c
  | .gpip _ => none

/-- The condition on a connection whose timer may expire. -/
def ExpiryGuard (p : Program) (now : UInt8) (k : Connection) : Prop :=
  ∀ c ∈ httpOf k, 4 < (now.toNat : Int) - c.transmissionTime.toNat → BoundaryKept p c

/-- The condition on a step. A connection goes back when a segment acknowledges again what was
acknowledged, and when the retransmission timer expires.
-/
def FileGuard (p : Program) (s : Server) : Event → Prop
  | .receive seg =>
      seg.dstPort % 256 = 80 → seg.checksumValid
        → unacknowledged (findConnection p s seg).2 = seg.ackno
        → BoundaryKept p (findConnection p s seg).2
  | .retransmit => ∀ k ∈ s.connections, ExpiryGuard p (s.lastTransmissionTime + 1) k
  | _ => True

section Decidable

instance (c : HttpConnection) (file : StaticResource) (seqno : UInt32)
    : Decidable (OnBoundary p c file seqno) :=
  inferInstanceAs (Decidable (_ ∧ _))

instance (c : HttpConnection) : Decidable (BoundaryKept p c) :=
  inferInstanceAs (Decidable (∀ _ ∈ c.outputHandler.bind (staticFile p), _))

instance (now : UInt8) (k : Connection) : Decidable (ExpiryGuard p now k) :=
  inferInstanceAs (Decidable (∀ _ ∈ httpOf k, _))

instance (s : Server) (event : Event) : Decidable (FileGuard p s event) :=
  match event with
  | .receive _ => inferInstanceAs (Decidable (_ → _))
  | .retransmit => List.decidableBAll _ s.connections
  | .receiveGpIp .. | .send | .push _ | .packetOut .. => .isTrue trivial

end Decidable

/-- A step that meets the condition. -/
def FileGuardedStep (p : Program) (s : Server) (event : Event) (s' : Server) : Prop :=
  Step p s event s' ∧ FileGuard p s event

--------------------------------------------------
-- The invariant
--------------------------------------------------

/-- A connection that serves a file is at one of its boundaries. -/
def FileAligned (p : Program) (c : HttpConnection) : Prop :=
  ∀ h file, c.outputHandler = some h → staticFile p h = some file
    → c.cometSendAck = false ∧ OnBoundary p c file c.nextOutseqno

/-- Every connection that serves a file is at a boundary. -/
def FilesAligned (p : Program) (s : Server) : Prop :=
  ∀ a c, ⟨a, .http c⟩ ∈ s.connections → FileAligned p c

theorem staticFile_eq {h : HandlerRef} {file : StaticResource} (static : staticFile p h = some file)
    : (p.handler h).data = .file file ∧ (p.handler h).handlerComet = false := by
  unfold staticFile at static
  split at static
  · rename_i data
    split_ifs at static with comet
    cases static
    exact ⟨data, by simpa using comet⟩
  · cases static

theorem not_isControl {h : HandlerRef} {file : StaticResource} (static : staticFile p h = some file)
    : ¬ p.isControl h := by
  simp [Program.isControl, (staticFile_eq static).1]

/-- The multiples of the chunk size that `MAX_OUT_SIZE` takes. -/
theorem dvd_maxOutSize (mss : UInt16) : 1 <<< p.chuncksNbits ∣ p.maxOutSize mss := by
  rw [Program.maxOutSize, Nat.shiftLeft_eq, Nat.shiftLeft_eq, one_mul]
  exact Nat.dvd_mul_left _ _

/-- What lies behind a position of a file. -/
theorem remaining_eq (c : HttpConnection) (file : StaticResource)
    (inside : (c.nextOutseqno - responseStart c file).toNat ≤ file.data.length)
    : (c.finalOutseqno - c.nextOutseqno).toNat
      = file.data.length - (c.nextOutseqno - responseStart c file).toNat := by
  have fits := file.fits
  have sum : c.finalOutseqno - c.nextOutseqno
      = UInt32.ofNat file.data.length - (c.nextOutseqno - responseStart c file) := by
    unfold responseStart
    grind
  have length : (UInt32.ofNat file.data.length).toNat = file.data.length := by
    rw [UInt32.toNat_ofNat']
    omega
  rw [sum, UInt32.toNat_sub_of_le]
  · rw [length]
  · rw [UInt32.le_iff_toNat_le, length]
    exact inside

/-- A segment that starts on a boundary lies inside the file, and ends on a boundary. -/
theorem OnBoundary.segment {c : HttpConnection} {file : StaticResource}
    (boundary : OnBoundary p c file c.nextOutseqno)
    : (c.nextOutseqno ≠ c.finalOutseqno → SegmentInside p c file)
      ∧ OnBoundary p c file (c.nextOutseqno + UInt32.ofNat (fileSegmentLength p c)) := by
  obtain ⟨inside, aligned⟩ := boundary
  have remaining := remaining_eq c file inside
  have fits := file.fits
  have index : indexInFile c file = c.nextOutseqno - responseStart c file := by
    unfold indexInFile responseStart
    grind
  have chunk := dvd_maxOutSize (p := p) c.tcpMss
  refine ⟨fun something => ⟨index, ?_, ?_, ?_⟩, ?_⟩
  · rw [index, fileSegmentLength, remaining]
    omega
  · rw [index]
    refine aligned.resolve_right fun atEnd => something ?_
    have zero : (c.finalOutseqno - c.nextOutseqno).toNat = 0 := by rw [remaining, atEnd]; omega
    have zero' : c.finalOutseqno - c.nextOutseqno = 0 := UInt32.toNat_inj.mp zero
    grind
  · have position : file.data.length - (c.finalOutseqno - c.nextOutseqno).toNat
        = (indexInFile c file).toNat := by
      rw [remaining, index]
      omega
    unfold filePayload
    dsimp only
    rw [if_pos (by omega), position]
    rfl
  · have small : fileSegmentLength p c ≤ file.data.length
        - (c.nextOutseqno - responseStart c file).toNat := by
      rw [fileSegmentLength, remaining]
      omega
    have moved : (c.nextOutseqno + UInt32.ofNat (fileSegmentLength p c) - responseStart c file).toNat
        = (c.nextOutseqno - responseStart c file).toNat + fileSegmentLength p c := by
      have eq : c.nextOutseqno + UInt32.ofNat (fileSegmentLength p c) - responseStart c file
          = (c.nextOutseqno - responseStart c file) + UInt32.ofNat (fileSegmentLength p c) := by
        grind
      rw [eq, UInt32.toNat_add, UInt32.toNat_ofNat']
      omega
    unfold OnBoundary
    dsimp only
    rw [moved]
    refine ⟨by omega, ?_⟩
    rcases Nat.le_total (c.finalOutseqno - c.nextOutseqno).toNat (p.maxOutSize c.tcpMss) with
      last | more
    · right
      rw [fileSegmentLength, min_eq_left last, remaining]
      omega
    · rcases aligned with aligned | atEnd
      · left
        rw [fileSegmentLength, min_eq_right more]
        exact Nat.dvd_add aligned chunk
      · right
        omega

theorem FileAligned.congr {c c' : HttpConnection} (aligned : FileAligned p c)
    (handler : c'.outputHandler = c.outputHandler) (noAck : c'.cometSendAck = c.cometSendAck)
    (next : c'.nextOutseqno = c.nextOutseqno) (final : c'.finalOutseqno = c.finalOutseqno)
    : FileAligned p c' := by
  intro h file own static
  obtain ⟨ack, boundary⟩ := aligned h file (handler ▸ own) static
  refine ⟨noAck.trans ack, ?_⟩
  rw [next]
  unfold OnBoundary responseStart at *
  rw [final]
  exact boundary

/-- A response starts at the number that the request acknowledges. -/
theorem responseStart_beginResponse {h : HandlerRef} {file : StaticResource}
    (static : staticFile p h = some file) (ackno : UInt32) (c : HttpConnection)
    : responseStart (beginResponse p ackno h c) file = ackno := by
  simp only [responseStart, beginResponse, (staticFile_eq static).1]
  grind

/-- A response begins at the beginning of its file. -/
theorem beginResponse_aligned (ackno : UInt32) (h : HandlerRef) (c : HttpConnection)
    : FileAligned p (beginResponse p ackno h c) := by
  intro h' file own static
  cases own
  refine ⟨(staticFile_eq static).2, ?_⟩
  have zero : ((beginResponse p ackno h c).nextOutseqno
      - responseStart (beginResponse p ackno h c) file).toNat = 0 := by
    rw [responseStart_beginResponse static]
    simp [beginResponse]
  unfold OnBoundary
  dsimp only
  rw [zero]
  exact ⟨Nat.zero_le _, .inl (Nat.dvd_zero _)⟩

--------------------------------------------------
-- The steps
--------------------------------------------------

section Steps

variable {s s' : Server}

/-- The connection of the sender goes back, if at all, to a boundary. -/
theorem FileAligned.processed {seg : TcpSegment} {c c' : HttpConnection} {service : Option Addr}
    (aligned : FileAligned p c) (processed : Processed p seg c s.heap c')
    (kept : unacknowledged c = seg.ackno → BoundaryKept p c)
    : FileAligned p { c' with generatorService := service } := by
  intro h file own static
  rcases processed.outputHandler own (not_isControl static) with ⟨d, result⟩ |
    ⟨before, next, final, noAck⟩
  · rw [result] at own ⊢
    exact beginResponse_aligned seg.ackno h d h file own static
  · obtain ⟨ack, boundary⟩ := aligned h file before static
    refine ⟨noAck.trans ack, ?_⟩
    have same (n : UInt32) (on : OnBoundary p c file n)
        : OnBoundary p { c' with generatorService := service } file n := by
      unfold OnBoundary responseStart at *
      dsimp only
      rw [final]
      exact on
    dsimp only
    rw [next, acknowledge_nextOutseqno]
    split <;> rename_i una
    · by_cases nothing : c.inflight = 0
      · have at_next : seg.ackno = c.nextOutseqno := by simpa [nothing] using una.symm
        rw [at_next]
        exact same _ boundary
      · rw [← una]
        exact same _ (kept una file (by simp [before, static]) nothing)
    · exact same _ boundary

theorem FilesAligned.receive {seg : TcpSegment} (aligned : FilesAligned p s)
    (step : smewsReceive p seg s = some s') (guard : FileGuard p s (.receive seg))
    : FilesAligned p s' := by
  intro b d mem
  cases smewsReceive_receives step with
  | ignored ring => exact aligned b d (ring ▸ mem)
  | freed i _ _ _ ring =>
      rw [ring, List.mem_append] at mem
      exact aligned b d (mem.elim List.mem_of_mem_drop List.mem_of_mem_take)
  | stored i a c c' service found at_i peer port valid processed open_ ring =>
      rw [ring] at mem
      rcases mem_setHttp at_i mem with other | ⟨-, rfl⟩
      · exact aligned b d other
      · refine (aligned a c (List.mem_of_getElem? at_i)).processed processed fun una => ?_
        have kept := guard port valid
        rw [found] at kept
        exact kept una
  | added a c' valid processed syn ring =>
      rw [ring, List.mem_append, List.mem_singleton] at mem
      rcases mem with old | new
      · exact aligned b d old
      · cases new
        intro h file own static
        have notSyn := not_isControl static
        rcases processed.outputHandler own notSyn with ⟨e, result⟩ | ⟨before, -⟩
        · rw [result] at own ⊢
          exact beginResponse_aligned seg.ackno h e h file own static
        · cases before

theorem FileAligned.rollBack {c : HttpConnection} {now : UInt8} (aligned : FileAligned p c)
    (kept : 4 < (now.toNat : Int) - c.transmissionTime.toNat → BoundaryKept p c)
    : FileAligned p (System.rollBack now c) := by
  unfold System.rollBack
  split
  · rename_i expired
    obtain ⟨-, late, inflight⟩ := expired
    intro h file own static
    obtain ⟨ack, -⟩ := aligned h file own static
    refine ⟨ack, ?_⟩
    have nonzero : c.inflight ≠ 0 := by
      rintro zero
      rw [zero] at inflight
      exact absurd inflight (by decide)
    have handler : c.outputHandler = some h := own
    exact kept late file (by simp [handler, static]) nonzero
  · exact aligned

/-- The length of the segment of a file that is emitted. -/
theorem filePayload_length {c : HttpConnection} {file : StaticResource} {payload : List UInt8}
    (content : filePayload p c file = some payload)
    : payload.length = fileSegmentLength p c := by
  unfold filePayload at content
  dsimp only at content
  split at content
  · simp only [Option.some.injEq] at content
    rw [← content, List.length_take, List.length_drop, fileSegmentLength]
    omega
  · cases content

/-- The sequence numbers after the segment of a file, and after one without payload. -/
theorem advance_file {c : HttpConnection} {h : HandlerRef} {file : StaticResource}
    (isFile : (p.handler h).data = .file file) (length : Nat)
    : advance p s c h length = { c with
      nextOutseqno := c.nextOutseqno + UInt32.ofNat length
      inflight := c.inflight + UInt16.ofNat length } := by
  have syn : isSyn p h = false := by
    simp only [isSyn, getFlags, isFile]
    decide
  simp [advance, syn, isFile]

theorem advance_ack (c : HttpConnection) : advance p s c .ack 0 = c := by
  have syn : isSyn p .ack = false := by
    show (tcpAck &&& tcpSyn != 0) = false
    decide
  simp [advance, syn, Program.handler, refAck, OutputHandler.plain]

/-- The connection that `smews_send` serves stays on the boundaries of its file. -/
theorem FilesAligned.serves {t : Server} {before : List Connection} {b : Addr}
    {d : HttpConnection} (aligned : FilesAligned p t)
    (ring : t.connections = before ++ [⟨b, .http d⟩]) (serves : Serves p t before b d s')
    : FilesAligned p s' := by
  have own : FileAligned p d := aligned b d (by simp [ring])
  have others {a : Addr} {c : HttpConnection} (mem : ⟨a, .http c⟩ ∈ before) : FileAligned p c :=
    aligned a c (by rw [ring]; exact List.mem_append_left _ mem)
  intro a c mem
  cases serves with
  | ack instead sent ring' =>
      rcases ring' with ⟨-, ring'⟩ | ⟨-, ring'⟩ <;> rw [ring'] at mem
      · exact others mem
      rw [List.mem_append, List.mem_singleton] at mem
      rcases mem with other | same
      · exact others other
      · cases same
        rw [advance_ack]
        intro h file handler static
        rcases d.outputHandler.eq_none_or_eq_some with old | ⟨h', old⟩
        · rw [old] at handler
          cases handler
        · have ready : ¬ d.request.readyToSend := by
            rcases instead with notReady | ack
            · exact notReady
            · intro ready
              have same : h' = h := by
                simp only [old, afterControl, if_pos ready] at handler
                exact Option.some.inj handler
              subst same
              rw [(own h' file old static).1] at ack
              cases ack
          have kept : FileAligned p (afterControl d.outputHandler
              { d with
                outputHandler := some .ack
                transmissionTime := t.lastTransmissionTime }) := by
            rw [old, afterControl, if_neg ready]
            exact own.congr old.symm rfl rfl rfl
          exact kept h file handler static
  | control h ready noAck handler isControl sent ring' =>
      rcases ring' with ⟨-, ring'⟩ | ⟨-, ring'⟩ <;> rw [ring'] at mem
      · exact others mem
      rw [List.mem_append, List.mem_singleton] at mem
      rcases mem with other | same
      · exact others other
      · cases same
        intro h' file handler' static
        cases handler'
  | file h file payload ready noAck handler isFile content sent ring' =>
      rw [ring', List.mem_append, List.mem_singleton] at mem
      rcases mem with other | same
      · exact others other
      · cases same
        rw [advance_file isFile, filePayload_length content]
        intro h' file' handler' static
        have same : h = h' := Option.some.inj (handler.symm.trans handler')
        subst same
        obtain ⟨ack, boundary⟩ := own h file' handler static
        exact ⟨ack, boundary.segment.2⟩
  | generator h resource ready noAck handler isGenerator call served =>
      obtain ⟨c0, mem0, same⟩ := mem_ringServed served mem
      rcases same with rfl | pair
      · exact aligned a c mem0
      · intro h' file handler' static
        rw [pair.outputHandler, pair.handler] at handler'
        cases handler'
        rw [(staticFile_eq static).1] at isGenerator
        cases isGenerator

theorem FilesAligned.send (aligned : FilesAligned p s) (step : smewsSend p s = some s')
    : FilesAligned p s' := by
  cases smewsSend_sends step with
  | nothing _ _ same =>
      subst same
      exact aligned
  | reset rst same =>
      subst same
      exact aligned
  | gpip i before b g rst chosen ring answered =>
      intro a c mem
      rw [answered.ring] at mem
      exact aligned a c (mem_rotate.mp (ring ▸ List.mem_append_left _ mem))
  | http i before b d rst chosen able ring serves =>
      have rotated : FilesAligned p (rotate i s) := fun a c mem => aligned a c (mem_rotate.mp mem)
      exact rotated.serves ring serves

/-- Every step that meets the condition keeps the connections on the boundaries. -/
theorem FilesAligned.step {event : Event} (aligned : FilesAligned p s)
    (step : FileGuardedStep p s event s')
    : FilesAligned p s' := by
  obtain ⟨step, guard⟩ := step
  cases event with
  | receive seg => exact aligned.receive step guard
  | receiveGpIp srcAddr protocol payload =>
      exact fun a c mem => aligned a c (smewsReceiveGpIp_http step mem)
  | send => exact aligned.send step
  | retransmit =>
      simp only [Step, next, Option.some.injEq] at step
      subst step
      intro a c mem
      obtain ⟨d, old, rfl⟩ := mem_mapHttp.mp mem
      exact (aligned a d old).rollBack fun late => guard ⟨a, .http d⟩ old d rfl late
  | push handler =>
      simp only [Step, next, Option.some.injEq] at step
      by_cases comet : (p.handler handler).handlerComet
      · rw [serverPush, if_pos comet] at step
        subst step
        intro a c mem
        obtain ⟨d, old, rfl⟩ := mem_mapHttp.mp mem
        split <;> rename_i listens
        · intro h file own static
          have same : handler = h := Option.some.inj (listens.symm.trans own)
          subst same
          rw [(staticFile_eq static).2] at comet
          cases comet
        · exact aligned a d old
      · rw [serverPush, if_neg comet] at step
        exact step ▸ aligned
  | packetOut protocol address =>
      simp only [Step, next, Option.some.injEq] at step
      subst step
      exact fun a c mem => aligned a c (requestPacketOutCall_http mem)

end Steps

--------------------------------------------------
-- Runs
--------------------------------------------------

/-- In a run whose connections go back to boundaries only, each segment of a file that may be
emitted lies inside its file, at a multiple of the size of the chunks.
-/
theorem file_segments_inside {start s : Server} {events : List Event} (initial : Initial start)
    (run : Run (FileGuardedStep p) start events s)
    {a : Addr} {c : HttpConnection} (mem : ⟨a, .http c⟩ ∈ s.connections)
    {h : HandlerRef} (handler : c.outputHandler = some h)
    {file : StaticResource} (static : staticFile p h = some file)
    (something : c.nextOutseqno ≠ c.finalOutseqno)
    : SegmentInside p c file := by
  have empty : FilesAligned p start := by
    intro a c mem
    rw [initial.connections] at mem
    cases mem
  have aligned := run.invariant (FilesAligned p) FilesAligned.step empty
  exact (aligned a c mem h file handler static).2.segment.1 something

/-- A build that serves one file at `/a`. -/
def oneFile (file : StaticResource) : Program :=
  {
    oneGenerator hello noArgs with
    resource := fun _ => .plain (.file file)
    resource_ne_control := fun _ _ _ => HandlerData.noConfusion
  }

/-- A file of 200 bytes, which is a little more than six chunks. -/
def sixChunks : StaticResource :=
  {
    data := List.replicate 200 65
    nonempty := by
      rw [ne_eq, List.replicate_eq_nil_iff]
      decide
    fits := by
      rw [List.length_replicate]
      decide
  }

/-- The file is sent and lost, and the timer expires. -/
def lostFile : List Event := requestOf 128 ++ [.send] ++ List.replicate 5 .retransmit

/-- After the loss of its first segment the file starts again. -/
theorem file_segments_inside_lost
    : ∃ s c, Run (FileGuardedStep (oneFile sixChunks)) bootServer lostFile s
      ∧ s.http 0 = some c ∧ SegmentInside (oneFile sixChunks) c sixChunks := by
  have checked : ((runChecked (next (oneFile sixChunks)) (FileGuard (oneFile sixChunks))
      lostFile bootServer).bind fun s =>
        (s.http 0).map fun c => (c.outputHandler, c.nextOutseqno != c.finalOutseqno))
      = some (some (.resource 0), true) := by
    decide +kernel
  simp only [Option.bind_eq_some_iff, Option.map_eq_some_iff, Prod.mk.injEq] at checked
  obtain ⟨s, run, c, here, handler, something⟩ := checked
  obtain ⟨a, at_0⟩ := http_eq here
  have run' := Run.of_checked run
  exact ⟨s, c, run', here, file_segments_inside bootServer_initial run' (List.mem_of_getElem? at_0)
    handler rfl (by simpa using something)⟩

/-- Ten bytes of the first segment are acknowledged before the timer expires. -/
def partlyLostFile : List Event :=
  requestOf 128 ++ [
    .send,
    .receive (clientSegment 1020 0x42b7a49c tcpAck 8192 [] [] bare_fits)
  ] ++ List.replicate 5 .retransmit

/-- After an acknowledgement inside the first segment the file goes on at its tenth byte, which
has no checksum.
-/
theorem file_segments_fail_partial_ack
    : ∃ s c, Run (Step (oneFile sixChunks)) bootServer partlyLostFile s
      ∧ s.http 0 = some c ∧ c.outputHandler = some (.resource 0)
      ∧ c.nextOutseqno ≠ c.finalOutseqno
      ∧ indexInFile c sixChunks = 10
      ∧ ¬ SegmentInside (oneFile sixChunks) c sixChunks := by
  have checked : ((runChecked (next (oneFile sixChunks)) (fun _ _ => True)
      partlyLostFile bootServer).bind fun s =>
        (s.http 0).map fun c =>
          (c.outputHandler, c.nextOutseqno != c.finalOutseqno, indexInFile c sixChunks))
      = some (some (.resource 0), true, 10) := by
    decide +kernel
  simp only [Option.bind_eq_some_iff, Option.map_eq_some_iff, Prod.mk.injEq] at checked
  obtain ⟨s, run, c, here, handler, something, index⟩ := checked
  refine ⟨s, c, (Run.of_checked run).mono And.left, here, handler, by simpa using something, index,
    fun inside => ?_⟩
  have aligned := inside.aligned
  rw [index] at aligned
  revert aligned
  decide

--------------------------------------------------
-- Checksums
--------------------------------------------------

/-- The chunk sums of a segment of a file change the checksum as its bytes would, and add up in 32 bits. -/
theorem file_checksum_agrees (p : Program) (chunks : 1 ≤ p.chuncksNbits) (fileData : List UInt8)
    (mss : UInt16) (index length : Nat) (aligned : 1 <<< p.chuncksNbits ∣ index)
    (short : length = segmentLengthOf p mss (fileData.length - index)) (k : Checksum)
    (even : k.flip = false)
    : ∃ tmpSum, fileTmpSum p.chuncksNbits fileData index length = some tmpSum
      ∧ tmpSum.toNat = ((((chk p.chuncksNbits fileData).drop (index >>> p.chuncksNbits)).take
          (getNbBlocks p.chuncksNbits length)).map UInt16.toNat).sum
      ∧ (k.add32 tmpSum).finish.current
        = (k.addBytes ((fileData.drop index).take length)).finish.current := by
  obtain ⟨block, eq⟩ := aligned
  rw [Nat.mul_comm] at eq
  obtain ⟨tmpSum, added, toNat, cast, pos⟩ := fileTmpSum_eq p chunks fileData block mss eq short
  exact ⟨tmpSum, added, toNat, add32_agrees cast pos even⟩

/-- The last segment of the file of 200 bytes, after six chunks. -/
theorem file_checksum_agrees_last
    : ∃ tmpSum, fileTmpSum 5 sixChunks.data 192 8 = some tmpSum
      ∧ tmpSum.toNat = ((((chk 5 sixChunks.data).drop 6).take 1).map UInt16.toNat).sum
      ∧ (Checksum.init.add32 tmpSum).finish.current
        = (Checksum.init.addBytes ((sixChunks.data.drop 192).take 8)).finish.current :=
  file_checksum_agrees (oneFile sixChunks) (by decide) sixChunks.data 1000 192 8 (by decide)
    (by decide +kernel) Checksum.init rfl

/-- The checksum of a segment that lies inside its file is the one of its payload. -/
theorem SegmentInside.checksum {c : HttpConnection} {file : StaticResource}
    (inside : SegmentInside p c file) (chunks : 1 ≤ p.chuncksNbits)
    (left : (c.finalOutseqno - c.nextOutseqno).toNat ≤ file.data.length)
    {k : Checksum} (even : k.flip = false)
    : ∃ tmpSum payload, fileTmpSum p.chuncksNbits file.data (indexInFile c file).toNat
          (fileSegmentLength p c) = some tmpSum
        ∧ filePayload p c file = some payload
        ∧ (k.add32 tmpSum).finish.current = (k.addBytes payload).finish.current := by
  obtain ⟨block, eq⟩ := inside.aligned
  rw [Nat.mul_comm] at eq
  have index : (indexInFile c file).toNat
      = file.data.length - (c.finalOutseqno - c.nextOutseqno).toNat := by
    have fits := file.fits
    have size : (UInt32.ofNat file.data.length).toNat = file.data.length := by
      rw [UInt32.toNat_ofNat']
      exact Nat.mod_eq_of_lt fits
    rw [indexInFile, UInt32.toNat_sub_of_le _ _ (by rw [UInt32.le_iff_toNat_le, size]; exact left), size]
  have short : fileSegmentLength p c
      = segmentLengthOf p c.tcpMss (file.data.length - (indexInFile c file).toNat) := by
    rw [fileSegmentLength, segmentLengthOf, index, Nat.sub_sub_self left]
  obtain ⟨tmpSum, added, _, cast, pos⟩ := fileTmpSum_eq p chunks file.data block c.tcpMss eq short
  exact ⟨tmpSum, _, added, inside.content, add32_agrees cast pos even⟩

end Smews.System
