import Smews.System.Peers

/-! The maximum segment size of a connection: what the options of its `SYN` ask for, and what the server takes
from the options of all its segments.
-/

namespace Smews.System

open Smews.Core Input Output Runs

variable {p : Program}

--------------------------------------------------
-- The property
--------------------------------------------------

/-- The TCP options of a `SYN`. -/
inductive TcpOption
  | nop
  | mss (value : UInt16)
  | windowScale (shift : UInt8)
  | sackPermitted
  | timestamps (value echo : UInt32)
deriving DecidableEq, Repr

/-- The bytes of an option: kind, length and value, most significant byte first. -/
def TcpOption.bytes : TcpOption → List UInt8
  | .nop => [1]
  | .mss value => [2, 4, (value >>> 8).toUInt8, value.toUInt8]
  | .windowScale shift => [3, 3, shift]
  | .sackPermitted => [4, 2]
  | .timestamps value echo => 8 :: 10 :: (word value ++ word echo)
where
  word (value : UInt32) : List UInt8 :=
    [(value >>> 24).toUInt8, (value >>> 16).toUInt8, (value >>> 8).toUInt8, value.toUInt8]

/-- The options of a header: a list of them, and zeros up to the end of the header. -/
structure OptionList where
  options : List TcpOption
  padding : Nat
deriving DecidableEq, Repr

def OptionList.bytes (l : OptionList) : List UInt8 :=
  l.options.flatMap TcpOption.bytes ++ List.replicate l.padding 0

/-- The value of the option of kind 2. -/
def OptionList.mss (l : OptionList) : Option UInt16 :=
  l.options.findSome? fun
    | .mss value => some value
    | _ => none

/-- The minimum of `MAX_MSS` and a value. -/
def limitMss (p : Program) (mss : UInt16) : UInt16 := if p.maxMss < mss then p.maxMss else mss

/-- What `tcp_mss` should be after a `SYN` with these options, when `default` stands for none. -/
def negotiatedMss (p : Program) (default : UInt16) (l : OptionList) : UInt16 :=
  match l.mss with
  | some mss => limitMss p mss
  | none => default

/-- The connections of the peer have this `tcp_mss`. -/
def HasMss (seg : TcpSegment) (mss : UInt16) (s : Server) : Prop :=
  ∀ a c, ⟨a, .http c⟩ ∈ s.connections → isPeer seg ⟨a, .http c⟩ → c.tcpMss = mss

--------------------------------------------------
-- The condition
--------------------------------------------------

/-- The third and fourth bytes of the options. -/
def optionWord : List UInt8 → Option UInt16
  | _ :: _ :: high :: low :: _ => some (high.toUInt16 * 256 + low.toUInt16)
  | _ => none

/-- The third and fourth bytes of the options of a `SYN` mean the same as its MSS, in the 12 bits of `tcp_mss`. -/
structure SynSuits (p : Program) (default : UInt16) (l : OptionList) : Prop where
  word : ∃ word, optionWord l.bytes = some word ∧ limitMss p word % 0x1000 = negotiatedMss p default l % 0x1000
  small : negotiatedMss p default l < 0x1000

/-- Another segment of the peer has no options, or ones whose third and fourth bytes mean the same MSS. -/
def LeavesMss (p : Program) (syn : TcpSegment) (mss : UInt16) : Event → Prop
  | .receive seg =>
      seg.srcAddr = syn.srcAddr → seg.srcPort = syn.srcPort → seg.dstPort % 256 = 80 → seg.checksumValid
        → ∀ word ∈ optionWord seg.options, limitMss p word % 0x1000 = mss
  | _ => True

/-- A step that the connection of a peer survives, with the condition on its segments. -/
def MssStep (p : Program) (syn : TcpSegment) (mss : UInt16) (s : Server) (event : Event) (s' : Server) : Prop :=
  Step p s event s' ∧ (syn.srcAddr, syn.srcPort) ∈ peers s'.connections ∧ LeavesMss p syn mss event

instance (syn : TcpSegment) (mss : UInt16) (event : Event) : Decidable (LeavesMss p syn mss event) :=
  match event with
  | .receive seg =>
      -- an option has at most one member: no search over all words
      have : Decidable (∀ word ∈ optionWord seg.options, limitMss p word % 0x1000 = mss) :=
        Option.decidableForallMem _
      inferInstanceAs (Decidable (_ → _ → _ → _ → _))
  | .receiveGpIp .. | .send | .retransmit | .push _ | .packetOut .. => .isTrue trivial

--------------------------------------------------
-- Segments
--------------------------------------------------

/-- What the headers of a segment make of `tcp_mss`. -/
theorem received_tcpMss (seg : TcpSegment) (c : HttpConnection)
    : (received p seg c).tcpMss
      = ((optionWord seg.options).map fun word => limitMss p word % 0x1000).getD c.tcpMss := by
  have acked : (acknowledge c seg.ackno).1.tcpMss = c.tcpMss := by
    unfold acknowledge
    dsimp only
    split <;> split <;> rfl
  have cleared (d : HttpConnection) : (clearHandler p d).1.tcpMss = d.tcpMss := by
    unfold clearHandler
    split
    · dsimp only
      split <;> rfl
    · rfl
  have transition (d : HttpConnection) : (tcpTransition seg d).tcpMss = d.tcpMss := by
    unfold tcpTransition
    repeat' split
    all_goals rfl
  have sequenced (d : HttpConnection) : (Input.sequence seg d).2.tcpMss = d.tcpMss := by
    unfold Input.sequence
    dsimp only
    split
    · exact transition _
    · rfl
  have negotiated (d : HttpConnection) : (negotiate p seg d).tcpMss
      = ((optionWord seg.options).map fun word => limitMss p word % 0x1000).getD d.tcpMss := by
    unfold negotiate
    dsimp only
    split
    · next options =>
        rw [options]
        rfl
    · next short =>
        rw [optionWord]
        · rfl
        · exact short
  have before : (Input.sequence seg (clearHandler p (acknowledge c seg.ackno).1).1).2.tcpMss = c.tcpMss := by
    rw [sequenced, cleared, acked]
  show (negotiate p seg (Input.sequence seg (clearHandler p (acknowledge c seg.ackno).1).1).2).tcpMss = _
  rw [negotiated, before]

/-- A segment of a peer leaves a connection of it with an MSS from before or from its options. -/
theorem smewsReceive_tcpMss {seg : TcpSegment} {s s' : Server} (step : smewsReceive p seg s = some s')
    {a : Addr} {c : HttpConnection} (mem : ⟨a, .http c⟩ ∈ s'.connections)
    : ⟨a, .http c⟩ ∈ s.connections
      ∨ (seg.dstPort % 256 = 80 ∧ seg.checksumValid ∧ isPeer seg ⟨a, .http c⟩
        ∧ (∃ d, ⟨a, .http d⟩ ∈ s.connections ∧ isPeer seg ⟨a, .http d⟩
          ∧ c.tcpMss = ((optionWord seg.options).map fun word => limitMss p word % 0x1000).getD d.tcpMss))
      ∨ ((seg.srcAddr, seg.srcPort) ∉ peers s.connections ∧ isPeer seg ⟨a, .http c⟩
        ∧ ∀ word ∈ optionWord seg.options, c.tcpMss = limitMss p word % 0x1000) := by
  cases smewsReceive_receives step with
  | ignored ring =>
      rw [ring] at mem
      exact .inl mem
  | stored i b d d' service found at_i peer port valid processed opened ring =>
      rw [ring] at mem
      rcases mem_setHttp at_i mem with old | ⟨rfl, rfl⟩
      · exact .inl old
      · obtain ⟨ipAddr, source⟩ := Processed.peer processed
        refine .inr (.inl ⟨port, valid, ?_, d, List.mem_of_getElem? at_i, peer, ?_⟩)
        · rw [isPeer_iff] at peer ⊢
          simpa [peerOf, ipAddr, source] using peer
        · exact processed.frame.tcpMss.trans (received_tcpMss seg d)
  | freed i b d at_i ring =>
      rw [ring, List.mem_append] at mem
      exact .inl (mem.elim List.mem_of_mem_drop List.mem_of_mem_take)
  | added b d valid processed syn ring =>
      have absent := smewsReceive_absent step ring
      rw [ring, List.mem_append, List.mem_singleton] at mem
      rcases mem with old | eq
      · exact .inl old
      · cases eq
        obtain ⟨ipAddr, source⟩ := Processed.peer processed
        refine .inr (.inr ⟨absent, ?_, fun word some_ => ?_⟩)
        · rw [isPeer_iff]
          simp [peerOf, ipAddr, source, listenConnection]
        · rw [processed.frame.tcpMss, received_tcpMss, Option.mem_def.mp some_]
          rfl

--------------------------------------------------
-- Runs
--------------------------------------------------

/-- A segment of another peer is not one of this one. -/
theorem isPeer_trans {seg seg' : TcpSegment} {k : Connection} (own : isPeer seg k) (other : isPeer seg' k)
    : seg'.srcAddr = seg.srcAddr ∧ seg'.srcPort = seg.srcPort := by
  rw [isPeer_iff] at own other
  simpa [eq_comm] using own.symm.trans other

/-- The `tcp_mss` of the connection of a peer is kept by a step that meets the condition. -/
theorem HasMss.step {syn : TcpSegment} {mss : UInt16} {event : Event} {s s' : Server}
    (has : HasMss syn mss s ∧ (syn.srcAddr, syn.srcPort) ∈ peers s.connections)
    (step : MssStep p syn mss s event s')
    : HasMss syn mss s' ∧ (syn.srcAddr, syn.srcPort) ∈ peers s'.connections := by
  obtain ⟨has, connected⟩ := has
  obtain ⟨step, still, leaves⟩ := step
  refine ⟨fun a c mem peer => ?_, still⟩
  by_cases receive : ∃ seg, event = .receive seg
  swap
  · obtain ⟨d, old, frame⟩ := (step_framed step fun seg eq => receive ⟨seg, eq⟩).kept a c mem
    rw [frame.tcpMss]
    refine has a d old ?_
    rw [isPeer_iff] at peer ⊢
    simpa [peerOf, frame.ipAddr, frame.port] using peer
  obtain ⟨seg, rfl⟩ := receive
  rcases smewsReceive_tcpMss step mem with old | ⟨port, valid, own, d, old, before, tcpMss⟩ | ⟨absent, own, -⟩
  · exact has a c old peer
  · obtain ⟨ipAddr, source⟩ := isPeer_trans peer own
    have kept : d.tcpMss = mss := by
      refine has a d old ?_
      rw [isPeer_iff] at before ⊢
      rw [before, ipAddr, source]
    rw [tcpMss, kept]
    cases word : optionWord seg.options with
    | none => rfl
    | some word_ => exact leaves ipAddr source port valid word_ word
  · obtain ⟨ipAddr, source⟩ := isPeer_trans peer own
    rw [ipAddr, source] at absent
    exact absurd connected absent

/-- In a run from the `SYN` of a peer, as long as its connection stays, `tcp_mss` is the minimum of `MAX_MSS` and
the MSS of that `SYN`, when the third and fourth bytes of the options of all its segments mean this MSS.
-/
theorem mss_negotiated {default : UInt16} {l : OptionList} {syn : TcpSegment} {start opened s : Server}
    {events : List Event} (options : syn.options = l.bytes) (suits : SynSuits p default l)
    (absent : (syn.srcAddr, syn.srcPort) ∉ peers start.connections)
    (opening : Step p start (.receive syn) opened)
    (connected : (syn.srcAddr, syn.srcPort) ∈ peers opened.connections)
    (run : Run (MssStep p syn (negotiatedMss p default l)) opened events s)
    : HasMss syn (negotiatedMss p default l) s := by
  refine (run.invariant (fun s => HasMss syn (negotiatedMss p default l) s
    ∧ (syn.srcAddr, syn.srcPort) ∈ peers s.connections) HasMss.step ⟨fun a c mem peer => ?_, connected⟩).1
  have old {d : HttpConnection} (mem : ⟨a, .http d⟩ ∈ start.connections) (peer : isPeer syn ⟨a, .http d⟩)
      : c.tcpMss = negotiatedMss p default l :=
    absurd (List.mem_filterMap.mpr ⟨_, mem, isPeer_iff.mp peer⟩) absent
  rcases smewsReceive_tcpMss opening mem with before | ⟨-, -, -, d, before, own, -⟩ | ⟨-, -, tcpMss⟩
  · exact old before peer
  · exact old before own
  · obtain ⟨word, third, same⟩ := suits.word
    have small := suits.small
    rw [tcpMss word (by rw [options]; exact third), same, ← UInt16.toNat_inj, UInt16.toNat_mod]
    rw [UInt16.lt_iff_toNat_lt] at small
    exact Nat.mod_eq_of_lt small

/-- A `SYN` whose first option is the MSS suits, unless the limit does not fit `tcp_mss`. -/
theorem SynSuits.of_first {default mss : UInt16} {rest : List TcpOption} {padding : Nat}
    (small : limitMss p mss < 0x1000)
    : SynSuits p default ⟨.mss mss :: rest, padding⟩ := by
  refine ⟨⟨mss, ?_, rfl⟩, small⟩
  have both : (mss >>> 8).toUInt8.toUInt16 * 256 + mss.toUInt8.toUInt16 = mss := by
    rw [← UInt16.toNat_inj]
    have bound := mss.toNat_lt
    simp [UInt16.toNat_shiftRight, Nat.shiftRight_eq_div_pow]
    omega
  show some _ = _
  rw [both]

/-- A `SYN` with some options. -/
def synWith (l : OptionList) (fits : 40 + l.bytes.length + 0 < 65536) : TcpSegment :=
  clientSegment 1000 0 tcpSyn 8192 l.bytes [] fits

/-- The options of a client that scales its window. -/
def scaledOptions : OptionList := ⟨[.mss 1000, .nop, .windowScale 7], 0⟩

/-- The client sends its request without options. -/
def unoptioned : List Event :=
  [
    .send,
    .receive (clientSegment 1001 0x42b7a492 tcpAck 8192 [] [] bare_fits),
    .receive (clientSegment 1001 0x42b7a492 (tcpAck ||| tcpPsh) 8192 []
      (ascii "GET /a HTTP/1.1\r\n\r\n") getA_fits),
    .send
  ]

/-- The client has an MSS of 1000. -/
theorem mss_negotiated_scaled
    : ∃ s a c, ⟨a, .http c⟩ ∈ s.connections ∧ c.tcpMss = 1000
      ∧ HasMss (synWith scaledOptions (by decide)) 1000 s := by
  have checked : ((runChecked (next (oneGenerator hello noArgs)) (fun s event =>
        ((next (oneGenerator hello noArgs) s event).all fun s' => (0xc0a80105, 4000) ∈ peers s'.connections)
          ∧ LeavesMss (oneGenerator hello noArgs) (synWith scaledOptions (by decide)) 1000 event)
      (.receive (synWith scaledOptions (by decide)) :: unoptioned) bootServer).bind fun s =>
        (s.http 0).map fun c => c.tcpMss)
      = some 1000 := by
    decide +kernel
  obtain ⟨s, run, checked⟩ := Option.bind_eq_some_iff.mp checked
  obtain ⟨c, here, tcpMss⟩ := Option.map_eq_some_iff.mp checked
  obtain ⟨a, at_0⟩ := http_eq here
  refine ⟨s, a, c, List.mem_of_getElem? at_0, tcpMss, ?_⟩
  have suits : SynSuits (oneGenerator hello noArgs) 0 scaledOptions := .of_first (by decide)
  have connects {s s' : Server} {event : Event} (step : next (oneGenerator hello noArgs) s event = some s')
      (still : (next (oneGenerator hello noArgs) s event).all fun s' =>
        (0xc0a80105, 4000) ∈ peers s'.connections)
      : (0xc0a80105, 4000) ∈ peers s'.connections := by
    rw [step, Option.all_some, decide_eq_true_iff] at still
    exact still
  rcases Run.of_checked run with _ | ⟨⟨opening, connected, -⟩, run⟩
  exact mss_negotiated rfl suits (by decide) opening (connects opening connected)
    (run.mono fun step => ⟨step.1, connects step.1 step.2.1, step.2.2⟩)

/-- A client with an MSS of 536 that sends timestamps with its other segments. -/
def timestamped : List Event :=
  [
    .receive (synWith ⟨[.mss 536], 0⟩ (by decide)),
    .send,
    .receive (clientSegment 1001 0x42b7a492 tcpAck 8192
      (OptionList.bytes ⟨[.nop, .nop, .timestamps 1 1], 0⟩) [] (by decide))
  ]

/-- The kind and the length of the timestamps are taken for an MSS of 2058, so that `MAX_MSS` is left. -/
theorem mss_fails_timestamps
    : ∃ s a c, Run (Step (oneGenerator hello noArgs)) bootServer timestamped s
      ∧ ⟨a, .http c⟩ ∈ s.connections ∧ isPeer (synWith ⟨[.mss 536], 0⟩ (by decide)) ⟨a, .http c⟩
      ∧ c.tcpMss = 1460 ∧ negotiatedMss (oneGenerator hello noArgs) 536 ⟨[.mss 536], 0⟩ = 536 := by
  have checked : ((runChecked (next (oneGenerator hello noArgs)) (fun _ _ => True)
      timestamped bootServer).bind fun s =>
        (s.http 0).map fun c => (c.ipAddr, c.port, c.tcpMss))
      = some (0xc0a80105, 4000, 1460) := by
    decide +kernel
  simp only [Option.bind_eq_some_iff, Option.map_eq_some_iff, Prod.mk.injEq] at checked
  obtain ⟨s, run, c, here, ipAddr, port, tcpMss⟩ := checked
  obtain ⟨a, at_0⟩ := http_eq here
  refine ⟨s, a, c, (Run.of_checked run).mono And.left, List.mem_of_getElem? at_0, ?_, tcpMss, by decide⟩
  simp [isPeer, ipAddr, port, synWith, clientSegment]

end Smews.System
