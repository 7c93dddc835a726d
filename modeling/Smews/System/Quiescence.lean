import Smews.Output.Pending
import Smews.System.FileSegments

/-! Successive calls of `smews_send`: how many of them emit a packet when nothing else happens.
-/

namespace Smews.System

open Smews.Core Input Output Runs

variable {p : Program}

--------------------------------------------------
-- The property
--------------------------------------------------

/-- A call of `smews_send`, with the number of calls that emitted a packet so far. -/
def CallStep (p : Program) (t : Server × Nat) (_ : Unit) (t' : Server × Nat) : Prop :=
  smewsSend p t.1 = some t'.1 ∧ t'.2 = if t'.1.sent = t.1.sent then t.2 else t.2 + 1

/-- However often `smews_send` is called, the number of calls that emit a packet is bounded. -/
def Quiesces (step : Server × Nat → Unit → Server × Nat → Prop) (s : Server) : Prop :=
  ∃ bound, ∀ calls t, Run step (s, 0) calls t → t.2 ≤ bound

/-- A call that meets the condition. -/
def ProgressStep (p : Program) (t : Server × Nat) (call : Unit) (t' : Server × Nat) : Prop :=
  CallStep p t call t' ∧ SendProgress p t.1

--------------------------------------------------
-- Runs
--------------------------------------------------

/-- A call that emits a packet pays for it. -/
theorem ProgressStep.pays {t t' : Server × Nat} {call : Unit} (step : ProgressStep p t call t')
    : pendingAll p t'.1 + t'.2 ≤ pendingAll p t.1 + t.2 := by
  obtain ⟨⟨send, count⟩, progress⟩ := step
  have pays := smewsSend_pays send progress
  obtain ⟨more, sent⟩ := smewsSend_extends send
  unfold Pays at pays
  rw [sent, List.length_append] at pays
  split_ifs at count with same
  · omega
  · have some : more ≠ [] := by
      rintro rfl
      exact same (by rw [sent, List.append_nil])
    have := List.length_pos_iff.mpr some
    omega

/-- Sending quiesces from every state: what is pending bounds the number of calls that emit a
packet, by induction on the calls.
-/
theorem sending_quiesces (p : Program) (s : Server) : Quiesces (ProgressStep p) s := by
  refine ⟨pendingAll p s, fun calls t run => ?_⟩
  have paid := run.invariant (fun t => pendingAll p t.1 + t.2 ≤ pendingAll p s)
    (fun {_ _ _} bound step => step.pays.trans bound) le_rfl
  exact (Nat.le_add_left _ _).trans paid

/-- A call with its count. -/
def callNext (p : Program) (t : Server × Nat) (_ : Unit) : Option (Server × Nat) :=
  (smewsSend p t.1).map fun s => (s, if s.sent = t.1.sent then t.2 else t.2 + 1)

theorem CallStep.of_next {t t' : Server × Nat} {call : Unit} (eq : callNext p t call = some t')
    : CallStep p t call t' := by
  rw [callNext, Option.map_eq_some_iff] at eq
  obtain ⟨s, send, rfl⟩ := eq
  exact ⟨send, rfl⟩

/-- When its page was requested, the server sends one packet in three calls. -/
theorem sending_quiesces_hello
    : ∃ s t, Run (Step (oneGenerator hello noArgs)) bootServer (requestOf 1000) s
      ∧ Run (ProgressStep (oneGenerator hello noArgs)) (s, 0) [(), (), ()] t ∧ t.2 = 1
      ∧ Quiesces (ProgressStep (oneGenerator hello noArgs)) s := by
  have checked : ((runChecked (next (oneGenerator hello noArgs)) (fun _ _ => True)
      (requestOf 1000) bootServer).bind fun s =>
        (runChecked (callNext (oneGenerator hello noArgs))
          (fun t _ => SendProgress (oneGenerator hello noArgs) t.1) [(), (), ()] (s, 0)).map (·.2))
      = some 1 := by
    decide +kernel
  simp only [Option.bind_eq_some_iff, Option.map_eq_some_iff] at checked
  obtain ⟨s, run, t, calls, one⟩ := checked
  exact ⟨s, t, (Run.of_checked run).mono And.left,
    (Run.of_checked calls).mono fun step => ⟨.of_next step.1, step.2⟩, one,
    sending_quiesces _ s⟩

--------------------------------------------------
-- An incomplete request
--------------------------------------------------

/-- The only connection of the server has a handler, but is not ready to send. -/
structure Unready (p : Program) (s : Server) : Prop where
  rst : s.rstConnection.port = 0
  ring : ∃ a c h, s.connections = [⟨a, .http c⟩] ∧ c.outputHandler = some h
    ∧ (Connection.mk a (.http c)).ableToSend p ∧ c.request.readyToSend = false
    ∧ c.tcpState ≠ .closing

/-- An acknowledgement is sent, and everything is as it was. -/
theorem Unready.send {s : Server} (unready : Unready p s)
    : ∃ s', smewsSend p s = some s' ∧ Unready p s' ∧ s'.sent ≠ s.sent := by
  obtain ⟨rst, a, c, h, ring, handler, able, notReady, open_⟩ := unready
  have chosen : s.connections.findIdx? (·.ableToSend p) = some 0 := by
    simp [ring, List.findIdx?_cons, able]
  have rotated : (rotate 0 s).connections = [⟨a, .http c⟩] := by simp [rotate, ring]
  have here : (rotate 0 s).http 0 = some c := by simp [Server.http, rotated]
  set t := (rotate 0 s).setHttp 0 { c with outputHandler := some .ack } with t_eq
  have ring_t : t.connections = [⟨a, .http { c with outputHandler := some .ack }⟩] := by
    simp [t_eq, Server.setHttp, rotated]
  have call : smewsSend p s = sendControl p 0 (some h) t := by
    simp [smewsSend, rst, chosen, rotated, sendHttp, here, notReady, handler, t_eq]
  obtain ⟨s', send⟩ : ∃ s', sendControl p 0 (some h) t = some s' := by
    simp [sendControl, sendPacket, ring_t, segmentPayload, Program.handler, refAck,
      OutputHandler.plain, Server.http, Server.setHttp, advance_ack, open_, notReady]
  have send' : sendControl p ([] : List Connection).length (some h) t = some s' := send
  obtain ⟨sent, after⟩ := sendControl_spec send' rfl ring_t rfl
  obtain ⟨-, after⟩ := after.resolve_left fun closing => open_ closing.1
  rw [advance_ack, afterControl, if_neg (by simp [notReady])] at after
  refine ⟨s', call.trans send, ⟨(smewsSend_rst (call.trans send) rst) ▸ rst, ?_⟩, ?_⟩
  · refine ⟨a, _, h, after, rfl, ?_, notReady, open_⟩
    simpa [Connection.ableToSend, HttpConnection.somethingToSend, handler] using able
  · rw [sent]
    exact fun same => by simpa [t_eq, rotate, Server.setHttp] using congrArg List.length same

/-- Any number of calls emits a packet each, by induction on the number. -/
theorem Unready.endless {s : Server} (unready : Unready p s) (n k : Nat)
    : ∃ calls t, Run (CallStep p) (s, k) calls t ∧ t.2 = k + n := by
  induction n generalizing s k with
  | zero => exact ⟨[], (s, k), .nil _, rfl⟩
  | succ n ih =>
      obtain ⟨s', send, unready', emits⟩ := unready.send
      obtain ⟨calls, t, run, count⟩ := ih unready' (k + 1)
      refine ⟨() :: calls, t, .cons ⟨send, (if_neg emits).symm⟩ run, ?_⟩
      omega

/-- One argument, a byte called `x`. -/
def oneArg : HandlerArgs :=
  {
    argsTree := Tools.genBlobTree [ascii "x"]
    argsIndex := [{ argType := .ui8, argSize := 1, argOffset := 0 }]
    argsSize := 1
  }

/-- A client whose segment ends in the middle of its request. -/
def incomplete : List Event :=
  (requestOf 1000).take 3 ++ [
    .receive (clientSegment 1001 0x42b7a492 (tcpAck ||| tcpPsh) 8192 [] (ascii "GET /a?x=1")
      (by decide))
  ]

/-- While the rest of the request is awaited, each call of `smews_send` emits an acknowledgement. -/
theorem sending_endless_incomplete
    : ∃ s, Run (Step (oneGenerator hello oneArg)) bootServer incomplete s
      ∧ ¬ Quiesces (CallStep (oneGenerator hello oneArg)) s := by
  have checked : ((runChecked (next (oneGenerator hello oneArg)) (fun _ _ => True)
      incomplete bootServer).bind fun s => (s.http 0).map fun c =>
        (s.rstConnection.port, s.connections.length, c.outputHandler,
          (Connection.mk 0 (.http c)).ableToSend (oneGenerator hello oneArg)
            && !c.request.readyToSend && c.tcpState ≠ .closing))
      = some (0, 1, some (.resource 0), true) := by
    decide +kernel
  simp only [Option.bind_eq_some_iff, Option.map_eq_some_iff, Prod.mk.injEq, Bool.and_eq_true,
    Bool.not_eq_true', decide_eq_true_eq] at checked
  obtain ⟨s, run, c, here, rst, one, handler, ⟨able, notReady⟩, open_⟩ := checked
  obtain ⟨a, at_0⟩ := http_eq here
  obtain ⟨k, ring⟩ := List.length_eq_one_iff.mp one
  have same : k = ⟨a, .http c⟩ := by simpa [ring] using at_0
  subst same
  refine ⟨s, (Run.of_checked run).mono And.left, ?_⟩
  rintro ⟨bound, bounded⟩
  have unready : Unready (oneGenerator hello oneArg) s :=
    ⟨rst, a, c, _, ring, handler, able, notReady, open_⟩
  obtain ⟨calls, t, run, count⟩ := unready.endless (bound + 1) 0
  have := bounded calls t run
  omega

end Smews.System
