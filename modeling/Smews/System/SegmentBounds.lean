import Smews.Input.ReceivedGpIp
import Smews.Output.Limits

/-! The bounds of `smews_send` along the runs of the server.
-/

namespace Smews.System

open Smews.Core Input Output Runs

variable {p : Program}

--------------------------------------------------
-- The other events
--------------------------------------------------

/-- Nothing is sent, and no handler above IP is called. -/
structure Unheard (s s' : Server) : Prop where
  sent : s'.sent = s.sent
  outputDone : s'.outputDone = s.outputDone
  packetCalls : s'.packetCalls = s.packetCalls

theorem Unheard.trans {s s' s'' : Server} (first : Unheard s s') (second : Unheard s' s'')
    : Unheard s s'' :=
  ⟨second.sent.trans first.sent, second.outputDone.trans first.outputDone,
    second.packetCalls.trans first.packetCalls⟩

theorem freeConnection_unheard {i : Nat} {s s' : Server} (free : s.freeConnection p i = some s')
    : Unheard s s' := by
  unfold Server.freeConnection at free
  rw [Option.bind_eq_bind, Option.bind_eq_some_iff] at free
  obtain ⟨connection, -, free⟩ := free
  dsimp only at free
  split at free
  · cases free
    exact ⟨rfl, rfl, rfl⟩
  · rw [Option.bind_eq_bind, Option.bind_eq_some_iff] at free
    obtain ⟨heap, -, free⟩ := free
    cases free
    unfold Server.freeService
    split <;> exact ⟨rfl, rfl, rfl⟩

theorem addConnection_unheard (s : Server) (protocol : Protocol)
    : Unheard s (s.addConnection p protocol).2 := by
  unfold Server.addConnection
  split <;> exact ⟨rfl, rfl, rfl⟩

/-- The commit of a segment sends nothing. -/
theorem commit_unheard {seg : TcpSegment} {i : Option Nat} {d : Pending} {s s' : Server}
    (step : commit p seg i d s = some s')
    : Unheard s s' := by
  unfold commit at step
  rw [Option.bind_eq_bind, Option.bind_eq_some_iff] at step
  obtain ⟨⟨c, s1⟩, service, rest⟩ := step
  have first : Unheard s s1 := by
    unfold commitService at service
    split at service
    · split at service
      · dsimp only at service
        split at service
        · simp only [Option.some.injEq, Prod.mk.injEq] at service
          rw [← service.2]
          exact ⟨rfl, rfl, rfl⟩
        · simp only [Option.bind_eq_bind, Option.bind_eq_some_iff, Option.some.injEq,
            Prod.mk.injEq] at service
          obtain ⟨heap, -, -, rfl⟩ := service
          exact ⟨rfl, rfl, rfl⟩
      · simp only [Option.some.injEq, Prod.mk.injEq] at service
        rw [← service.2]
        exact ⟨rfl, rfl, rfl⟩
    · simp only [Option.some.injEq, Prod.mk.injEq] at service
      rw [← service.2]
      exact ⟨rfl, rfl, rfl⟩
  refine first.trans ?_
  dsimp only at rest
  split at rest
  · split at rest
    · exact Unheard.trans ⟨rfl, rfl, rfl⟩ (freeConnection_unheard rest)
    · simp only [Option.some.injEq] at rest
      rw [← rest]
      exact ⟨rfl, rfl, rfl⟩
  · split at rest
    · have unheard := addConnection_unheard (p := p) s1 (.http c)
      split at rest <;> rename_i eq <;> rw [eq] at unheard <;> cases rest
      · exact unheard.trans ⟨rfl, rfl, rfl⟩
      · exact unheard
    · simp only [Option.some.injEq] at rest
      rw [← rest]
      exact ⟨rfl, rfl, rfl⟩

theorem smewsReceive_unheard {seg : TcpSegment} {s s' : Server}
    (step : smewsReceive p seg s = some s')
    : Unheard s s' := by
  unfold smewsReceive at step
  by_cases port : seg.dstPort % 256 = 80
  · rw [if_pos port, Option.bind_eq_bind, Option.bind_eq_some_iff] at step
    obtain ⟨outcome, -, rest⟩ := step
    cases outcome with
    | inr heap =>
        simp only [Option.some.injEq] at rest
        rw [← rest]
        exact ⟨rfl, rfl, rfl⟩
    | inl d =>
        dsimp only at rest
        split_ifs at rest
        · have first : Unheard s { s with heap := d.heap } := ⟨rfl, rfl, rfl⟩
          exact first.trans (commit_unheard rest)
        · simp only [Option.some.injEq] at rest
          rw [← rest]
          exact ⟨rfl, rfl, rfl⟩
  · rw [if_neg port, Option.some.injEq] at step
    rw [step]
    exact ⟨rfl, rfl, rfl⟩

theorem smewsReceiveGpIp_done {srcAddr : UInt32} {protocol : UInt8} {payload : List UInt8}
    {s s' : Server} (step : smewsReceiveGpIp p srcAddr protocol payload s = some s')
    : s'.sent = s.sent ∧ s'.outputDone = s.outputDone := by
  cases smewsReceiveGpIp_receives step with
  | unknown _ same | exhausted _ _ same | dropped _ _ _ _ _ _ _ _ same
  | accepted _ _ _ _ _ _ _ _ _ _ same =>
      rw [same]
      exact ⟨rfl, rfl⟩

/-- The calls of applications and timers send nothing. -/
theorem requestPacketOutCall_unheard (protocol : UInt8) (address : UInt32) (s : Server)
    : Unheard s (requestPacketOutCall p protocol address s) := by
  unfold requestPacketOutCall
  split
  · exact ⟨rfl, rfl, rfl⟩
  · exact addConnection_unheard s _

theorem serverPush_unheard (h : HandlerRef) (s : Server) : Unheard s (serverPush p h s) := by
  unfold serverPush
  split <;> exact ⟨rfl, rfl, rfl⟩

/-- Only `smews_send` sends. -/
theorem step_done {event : Event} {s s' : Server} (step : Step p s event s')
    (quiet : ¬ event.isSend)
    : s'.sent = s.sent ∧ s'.outputDone = s.outputDone := by
  cases event with
  | receive seg =>
      have unheard := smewsReceive_unheard step
      exact ⟨unheard.sent, unheard.outputDone⟩
  | receiveGpIp srcAddr protocol payload => exact smewsReceiveGpIp_done step
  | send => simp [Event.isSend] at quiet
  | retransmit =>
      cases step
      exact ⟨rfl, rfl⟩
  | push handler =>
      cases step
      have unheard := serverPush_unheard (p := p) handler s
      exact ⟨unheard.sent, unheard.outputDone⟩
  | packetOut protocol address =>
      cases step
      have unheard := requestPacketOutCall_unheard (p := p) protocol address s
      exact ⟨unheard.sent, unheard.outputDone⟩

theorem step_sent {event : Event} {s s' : Server} (step : Step p s event s')
    (quiet : ¬ event.isSend)
    : s'.sent = s.sent :=
  (step_done step quiet).1

--------------------------------------------------
-- Runs
--------------------------------------------------

/-- What a step of a run has to keep: each packet that it emits fits the MSS and the window of
its connection, and `smews_send` stores nothing behind the output buffer.
-/
def BoundedStep (p : Program) (s : Server) (event : Event) (s' : Server) : Prop :=
  Step p s event s' ∧ Emits p (windows s) s s' ∧ (event.isSend → Bounded p s s')

/-- A step whose call of `smews_send`, if it is one, has room for what it generates. -/
def FittingStep (p : Program) (s : Server) (event : Event) (s' : Server) : Prop :=
  Step p s event s' ∧ (event.isSend → SendFits p s)

theorem FittingStep.bounded {event : Event} {s s' : Server} (fitting : FittingStep p s event s')
    : BoundedStep p s event s' := by
  obtain ⟨step, fits⟩ := fitting
  by_cases send : event.isSend
  · cases event <;> simp only [Event.isSend, reduceCtorEq] at send
    have bounded := smewsSend_bounded step (fits rfl)
    exact ⟨step, bounded.emits, fun _ => bounded⟩
  · exact ⟨step, .of_sent (step_sent step send), fun isSend => absurd isSend send⟩

/-- In a run whose generated segments all have room, every segment fits the MSS and the window
of its connection, and `out_c` stays inside the output buffer.
-/
theorem segments_bounded {s s' : Server} {events : List Event}
    (run : Run (FittingStep p) s events s')
    : Run (BoundedStep p) s events s' :=
  run.mono FittingStep.bounded

/-- A page that fits is requested, sent, and sent again after a timeout. -/
theorem segments_bounded_hello
    : ∃ s, Run (BoundedStep (oneGenerator hello noArgs)) bootServer
        (requestOf 1000 ++ [.send] ++ List.replicate 5 .retransmit ++ [.send]) s
      ∧ s.sent.length = 3 := by
  have checked : (runChecked (next (oneGenerator hello noArgs))
      (fun s event => event.isSend → SendFits (oneGenerator hello noArgs) s)
      (requestOf 1000 ++ [.send] ++ List.replicate 5 .retransmit ++ [.send]) bootServer).map
        (·.sent.length) = some 3 := by
    decide +kernel
  obtain ⟨s, run, length⟩ := Option.map_eq_some_iff.mp checked
  exact ⟨s, segments_bounded (Run.of_checked run), length⟩

/-- An MSS below the size of the HTTP header makes the limit of `out_c` wrap around: the first
segment of the page exceeds the MSS.
-/
theorem segments_bounded_fails_small_mss
    : ∃ s s', Run (Step (oneGenerator hello noArgs)) bootServer (requestOf 60) s
      ∧ Step (oneGenerator hello noArgs) s .send s'
      ∧ ¬ BoundedStep (oneGenerator hello noArgs) s .send s' := by
  have checked : ((runChecked (next (oneGenerator hello noArgs)) (fun _ _ => True)
      (requestOf 60) bootServer).bind fun s =>
        (next (oneGenerator hello noArgs) s .send).map fun s' =>
          (windows s, s.sent.length, s'.sent[1]?))
      = some ([some ⟨0, 60, 8192, 0⟩], 1, some (some 0, {
        destination := 0xc0a80105
        body := .tcp 4000 0x42b7a492 1020 (tcpAck ||| tcpPsh) []
          (generatorPayload .standard (ascii "hello"))
      })) := by
    decide +kernel
  simp only [Option.bind_eq_some_iff, Option.map_eq_some_iff, Prod.mk.injEq] at checked
  obtain ⟨s, run, s', step, window, one, second⟩ := checked
  refine ⟨s, s', (Run.of_checked run).mono And.left, step, ?_⟩
  rintro ⟨-, ⟨new, sent, fits⟩, -⟩
  rw [sent, List.getElem?_append_right (by omega), one] at second
  obtain ⟨w, mem, -, mss, -⟩ := fits _ (List.mem_of_getElem? second)
  rw [window, List.mem_singleton, Option.some.injEq] at mem
  rw [mem, length_generatorPayload] at mss
  revert mss
  decide

end Smews.System
