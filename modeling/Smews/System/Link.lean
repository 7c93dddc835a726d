import Smews.System.PacketRoundTrip
import Smews.System.Resets

/-! Two servers on a link. Resets are answered by resets: once one is on its way between two servers that know nothing
of each other, they go on without end.
-/

namespace Smews.System

open Smews.Core Input Output Runs

variable {p q : Program}

--------------------------------------------------
-- The link
--------------------------------------------------

/-- Two servers, each with the other one as its peer. -/
structure Link where
  first : Server
  second : Server

/-- The server that calls `smews_send`. -/
inductive Side
  | first
  | second

/-- A server sends a packet, and the server at its destination receives the segment that carries it. -/
def Hop (p q : Program) (s t s' t' : Server) : Prop :=
  smewsSend p s = some s' ∧ ∃ entry seg, s'.sent = s.sent ++ [entry] ∧ entry.2.destination = q.localIpAddr
    ∧ Carries p entry.2 seg ∧ smewsReceive q seg t = some t'

def LinkStep (p q : Program) (l : Link) (side : Side) (l' : Link) : Prop :=
  match side with
  | .first => Hop p q l.first l.second l'.first l'.second
  | .second => Hop q p l.second l.first l'.second l'.first

/-- A server has no connection for another server. -/
def Stranger (p : Program) (t : Server) : Prop := (p.localIpAddr, tcpSrcPort) ∉ peers t.connections

/-- A server is to send a reset to another server. -/
structure Resets (q : Program) (s : Server) : Prop where
  ipAddr : s.rstConnection.ipAddr = q.localIpAddr
  port : s.rstConnection.port = tcpSrcPort

--------------------------------------------------
-- A reset for a reset
--------------------------------------------------

/-- The segment that carries the reset of a server. -/
def resetSegment (p : Program) (r : RstConnection) : TcpSegment :=
  {
    srcAddr := p.localIpAddr
    srcPort := tcpSrcPort
    dstPort := r.port
    seqno := r.nextOutseqno
    ackno := r.currentInseqno
    flags := tcpRst ||| tcpAck
    window := tcpWindow
    options := []
    payload := []
    checksumValid := true
    fits := bare_fits
  }

section Hops

variable {s t : Server}

theorem Stranger.unknown (stranger : Stranger p t) {seg : TcpSegment} (srcAddr : seg.srcAddr = p.localIpAddr)
    (srcPort : seg.srcPort = tcpSrcPort)
    : ∀ k ∈ t.connections, ¬ isPeer seg k := by
  intro k mem peer
  rw [isPeer_iff, srcAddr, srcPort] at peer
  exact stranger (List.mem_filterMap.mpr ⟨k, mem, peer⟩)

/-- A segment without a `SYN` from a stranger is answered by a reset. -/
theorem Stranger.receive (stranger : Stranger p t) {seg : TcpSegment} (srcAddr : seg.srcAddr = p.localIpAddr)
    (srcPort : seg.srcPort = tcpSrcPort) (port : seg.dstPort % 256 = 80) (valid : seg.checksumValid)
    (noSyn : ¬ seg.has tcpSyn)
    : smewsReceive q seg t = some { t with rstConnection := rstFor seg } := by
  rw [smewsReceive_unknown port (stranger.unknown srcAddr srcPort), if_pos valid, if_neg noSyn]

/-- A reset crosses the link, and another one is to be sent back. -/
theorem Resets.hop (resets : Resets q s) (stranger : Stranger p t)
    : ∃ t', Hop p q s t (sendRst s) t' ∧ t'.connections = t.connections ∧ t'.sent = t.sent ∧ Resets p t' := by
  have waits : s.rstConnection.port ≠ 0 := by
    rw [resets.port]
    decide
  have send : smewsSend p s = some (sendRst s) := by
    unfold smewsSend
    rw [if_pos waits]
  have port : (resetSegment p s.rstConnection).dstPort % 256 = 80 := by
    show s.rstConnection.port % 256 = 80
    rw [resets.port]
    decide
  have noSyn : ¬ (resetSegment p s.rstConnection).has tcpSyn := by
    show ¬ ((tcpRst ||| tcpAck) &&& tcpSyn != 0) = true
    decide
  have receive : smewsReceive q (resetSegment p s.rstConnection) t = _ := stranger.receive rfl rfl port rfl noSyn
  exact ⟨_, ⟨send, _, _, rfl, resets.ipAddr, ⟨rfl, rfl, rfl, rfl, rfl⟩, receive⟩, rfl, rfl, rfl, rfl⟩

theorem sendRst_resets (s : Server) : (resetsSent (sendRst s)).length = (resetsSent s).length + 1 := by
  have flags : (tcpRst ||| tcpAck) &&& tcpRst ≠ 0 := by decide
  simp [resetsSent, sendRst, isReset, flags]

end Hops

--------------------------------------------------
-- Runs
--------------------------------------------------

/-- Both servers send in turn. -/
def rounds : Nat → List Side
  | 0 => []
  | n + 1 => .first :: .second :: rounds n

/-- Once a server is to send a reset to another one, and none has a connection for the other, both send a reset in every
round, by induction on the rounds.
-/
theorem resets_without_end {l : Link} (resets : Resets q l.first) (knowsNot : Stranger q l.first)
    (notKnown : Stranger p l.second) (n : Nat)
    : ∃ l', Run (LinkStep p q) l (rounds n) l' ∧ Resets q l'.first
      ∧ (resetsSent l'.first).length = (resetsSent l.first).length + n
      ∧ (resetsSent l'.second).length = (resetsSent l.second).length + n := by
  induction n generalizing l with
  | zero => exact ⟨l, .nil l, resets, rfl, rfl⟩
  | succ n ih =>
      obtain ⟨s, t⟩ := l
      obtain ⟨t', there, same, sent, answers⟩ := resets.hop notKnown
      have knowsNot' : Stranger q (sendRst s) := knowsNot
      obtain ⟨s', back, same', sent', again⟩ := answers.hop knowsNot'
      have stranger : Stranger q s' := by
        rw [Stranger, same']
        exact knowsNot
      have stranger' : Stranger p (sendRst t') := by
        show (p.localIpAddr, tcpSrcPort) ∉ peers t'.connections
        rw [same]
        exact notKnown
      obtain ⟨l', run, resets', first, second⟩ := ih (l := ⟨s', sendRst t'⟩) again stranger stranger'
      have out : LinkStep p q ⟨s, t⟩ .first ⟨sendRst s, t'⟩ := there
      have home : LinkStep p q ⟨sendRst s, t'⟩ .second ⟨s', sendRst t'⟩ := back
      have more : (resetsSent s').length = (resetsSent s).length + 1 := by
        rw [resetsSent, sent', ← resetsSent, sendRst_resets]
      have more' : (resetsSent (sendRst t')).length = (resetsSent t).length + 1 := by
        rw [sendRst_resets, resetsSent, sent, ← resetsSent]
      dsimp only at first second ⊢
      exact ⟨l', .cons out (.cons home run), resets', by omega, by omega⟩

/-- A server that is to send a reset, and a server without connections at its destination. -/
def straying : Link := ⟨{ bootServer with rstConnection := ⟨0xc0a80105, 7, 9, tcpSrcPort⟩ }, bootServer⟩

/-- Three rounds of resets. -/
theorem resets_without_end_three
    : ∃ l', Run (LinkStep (oneGenerator hello noArgs) (neighbour (oneGenerator hello noArgs))) straying (rounds 3) l'
      ∧ (resetsSent l'.first).length = 3 := by
  obtain ⟨l', run, -, sent, -⟩ := resets_without_end (p := oneGenerator hello noArgs)
    (q := neighbour (oneGenerator hello noArgs)) (l := straying) ⟨rfl, rfl⟩ List.not_mem_nil List.not_mem_nil 3
  exact ⟨l', run, sent⟩

end Smews.System
