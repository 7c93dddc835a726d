import Smews.Input.Allocations
import Smews.Output.Multicast
import Smews.System.Peers

/-! Every event reaches the allocator through its calls only: what these keep holds in every run. In particular a block
is never given a name again, so the connections of the ring have different names.
-/

namespace Smews.System

open Smews.Core Input Output Runs Partial

variable {p : Program} {Inv : Heap → Prop} (k : AllocatorInv Inv)

include k

--------------------------------------------------
-- Connections and services
--------------------------------------------------

section Connections

variable {s : Server} (inv : Inv s.heap)
include inv

omit inv in
theorem freeInFlight_keeps {h : Heap} (held : Inv h) (persistent : Bool) (r : InFlight)
    : Inv (h.freeInFlight p persistent r) := by
  unfold Heap.freeInFlight
  refine k.memFree _ _ ?_
  split
  · exact k.memFree _ _ held
  · exact k.memFree _ _ (k.memFree _ _ held)
  · exact held

omit inv in
theorem freeInFlights_keeps {h : Heap} (held : Inv h) (persistent : Bool) (rs : List InFlight)
    : Inv (rs.foldl (fun h r => h.freeInFlight p persistent r) h) := by
  induction rs generalizing h with
  | nil => exact held
  | cons r rs ih => exact ih (freeInFlight_keeps k held persistent r)

theorem cleanService_keeps (a : Addr) (inack : Option UInt32) : Inv (s.cleanService p a inack).heap :=
  freeInFlights_keeps k inv _ _

theorem freeConnection_keeps (i : Nat) : Ensures (s.freeConnection p i) fun s => Inv s.heap := by
  refine .bind .trivial fun connection _ => ?_
  dsimp only
  split
  · refine .some ?_
    dsimp only
    exact k.memFree _ _ inv
  · rename_i c _
    have freed : Ensures (s.heap.freeArgs p c) Inv := by
      unfold Heap.freeArgs
      split
      · exact .some inv
      · exact k.memFreePointer inv _ _
    refine .bind freed fun heap held => .some ?_
    dsimp only
    refine k.memFree _ _ ?_
    unfold Server.freeService
    split
    · exact held
    · rename_i a _
      dsimp only
      refine k.memFree _ _ (cleanService_keeps k ?_ a none)
      exact held

theorem addConnection_keeps (protocol : Protocol) : Inv (s.addConnection p protocol).2.heap := by
  have allocated := k.memAlloc p.sizeofConnection inv
  unfold Server.addConnection
  split <;> rename_i alloc <;> rw [alloc] at allocated <;> exact allocated

end Connections

--------------------------------------------------
-- Reception
--------------------------------------------------

section Reception

variable {s : Server} (inv : Inv s.heap)
include inv

theorem commitService_keeps (ackno : UInt32) (d : Pending)
    : Ensures (commitService p ackno d s) fun r => Inv r.2.heap := by
  unfold commitService
  split
  · rename_i a _
    have cleaned := cleanService_keeps (p := p) k inv a (some ackno)
    refine .ite (fun _ => ?_) fun _ => .some inv
    dsimp only
    split
    · exact .some cleaned
    · exact .bind (k.memFreePointer (k.memFree _ _ (k.crClean cleaned _)) _ _) fun heap held => .some held
  · exact .some inv

theorem commit_keeps (seg : TcpSegment) (i : Option Nat) (d : Pending)
    : Ensures (commit p seg i d s) fun s => Inv s.heap := by
  refine .bind (commitService_keeps k inv seg.ackno d) fun ⟨c, s⟩ inv => ?_
  cases i with
  | some i => exact .ite (fun _ => freeConnection_keeps k inv i) fun _ => .some inv
  | none =>
      refine .ite (fun _ => ?_) fun _ => .some inv
      have added := addConnection_keeps (p := p) k inv (.http c)
      split <;> rename_i eq <;> rw [eq] at added <;> exact .some added

/-- The heap after a segment was processed. -/
theorem process_keeps (seg : TcpSegment) (c : HttpConnection)
    : Ensures (process p seg c s.heap) fun outcome => Inv (outcome.elim Pending.heap id) := by
  unfold process
  dsimp only
  refine .ite (fun _ => ?_) fun _ => .some inv
  refine .bind (parseSegment_keeps k inv _ _ _) fun segmented held => ?_
  cases segmented <;> exact .some held

theorem smewsReceive_keeps (seg : TcpSegment) : Ensures (smewsReceive p seg s) fun s => Inv s.heap := by
  refine .ite (fun _ => ?_) fun _ => .some inv
  dsimp only
  refine .bind (process_keeps k inv seg _) fun outcome held => ?_
  cases outcome with
  | inr heap => exact .some held
  | inl d => exact .ite (fun _ => commit_keeps k (by exact held) seg _ d) fun _ => .some held

theorem smewsReceiveGpIp_keeps (srcAddr : UInt32) (protocol : UInt8) (payload : List UInt8)
    : Ensures (smewsReceiveGpIp p srcAddr protocol payload s) fun s => Inv s.heap := by
  unfold smewsReceiveGpIp
  split
  · exact .some inv
  · split
    · dsimp only
      generalize added : s.addConnection p _ = result
      have kept : Inv result.2.heap := by
        rw [← added]
        exact addConnection_keeps k inv _
      obtain ⟨a, t⟩ := result
      cases a with
      | none => exact .some kept
      | some a => exact .ite (fun _ => freeConnection_keeps k (by exact kept) _) fun _ => .some kept
    · exact .none

end Reception

--------------------------------------------------
-- Emission
--------------------------------------------------

section Emission

variable {s : Server} (inv : Inv s.heap)
include inv

theorem openService_keeps (i : Nat) (c : HttpConnection) (h : HandlerRef) (resource : DynamicResource)
    : Inv (openService p i c h resource s).2.heap := by
  have allocated := k.memAlloc p.sizeofService inv
  unfold openService
  dsimp only
  split
  · exact inv
  · unfold createService
    split <;> rename_i alloc <;> rw [Server.setOutput] at alloc <;> rw [alloc] at allocated
    · exact allocated
    · unfold initService
      dsimp only
      split <;> exact k.congr allocated rfl rfl

theorem contextBackup_keeps (a addr : Addr) (seqno : UInt32) (header : ServiceHeader)
    : Inv (contextBackup p a addr seqno header s).2.heap := by
  have allocated := k.memAlloc p.sizeofContext inv
  unfold contextBackup
  dsimp only
  split <;> rename_i alloc <;> rw [alloc] at allocated
  · exact allocated
  · rename_i heap
    generalize backup : (if (s.heap.coroutine (.service a)).currContext.sp = 0 then (none, heap)
      else heap.memAlloc (s.heap.coroutine (.service a)).currContext.sp) = stacked
    have held : Inv stacked.2 := by
      rw [← backup]
      split
      · exact allocated
      · exact k.memAlloc _ allocated
    obtain ⟨stack, heap'⟩ := stacked
    dsimp only at held ⊢
    split
    · dsimp only
      exact k.memFree _ _ held
    · cases stack with
      | none => exact held
      | some b => exact k.congr held rfl rfl

theorem prepareRecord_keeps (a : Addr) (seqno : UInt32) (buffer : Addr)
    : Inv (prepareRecord p a seqno buffer s).state.heap := by
  have allocated := k.memAlloc p.sizeofInFlightInfos inv
  unfold prepareRecord
  dsimp only
  split <;> rename_i alloc <;> rw [alloc] at allocated
  · dsimp only [Progress.state]
    exact k.memFree _ _ allocated
  · rename_i addr heap
    split_ifs
    · exact allocated
    · have backed := contextBackup_keeps (p := p) k (s := { s with heap }) allocated a addr seqno
        s.currOutput.serviceHeader
      split <;> rename_i eq <;> rw [eq] at backed
      · exact backed
      · dsimp only [Progress.state]
        exact k.memFree _ _ (k.memFree _ _ backed)

theorem runGenerator_keeps (i : Nat) (a : Addr) (c : HttpConnection) (buffer : Addr)
    : Ensures (runGenerator p i a c buffer s) fun r => Inv r.2.heap := by
  have ran : Ensures (runOutput p a (isPostOut s c) s.currOutput.maxBytes s.heap) fun r => Inv r.2 := by
    unfold runOutput
    dsimp only
    split
    · exact .ite (fun _ => .bind .trivial fun _ _ => .some (k.congr inv rfl rfl)) fun _ => .none
    · split
      · exact .some inv
      · exact .none
    · exact .none
  refine .bind ran fun ⟨⟨frame, bytes⟩, heap⟩ held => ?_
  cases frame with
  | some frame => exact .some (k.congr held rfl rfl)
  | none =>
      refine .some ?_
      dsimp only
      unfold cleanPostData
      split
      · exact k.congr held rfl rfl
      · dsimp only [Server.setHttp, Server.setOutput]
        exact k.memFree _ _ (k.congr held rfl rfl)

theorem generate_keeps (i : Nat) (a : Addr) (c : HttpConnection) (retransmitting : Bool)
    : Ensures (generate p i a c retransmitting s) fun r => Inv r.state.heap := by
  have set : Inv (setupSegment a c.nextOutseqno retransmitting s).heap := by
    refine k.congr inv ?_ ?_
    all_goals
      unfold setupSegment setupHeader contextRestore
      cases retransmitting with
      | false => rfl
      | true =>
          cases found : ifSelect (s.service a) c.nextOutseqno with
          | none => rfl
          | some r =>
              cases infos : r.infos with
              | buffer b => simp [infos, Server.setOutput]
              | context b context =>
                  cases stack : context.stack <;> simp [infos, stack, Server.setOutput, Heap.setContext, Heap.setCoroutine]
  unfold generate
  dsimp only
  generalize setupSegment a c.nextOutseqno retransmitting s = t at set ⊢
  have allocated := k.memAlloc p.outputBufferSize set
  refine .ite (fun _ => .some set) fun _ => .ite (fun _ => ?_) fun _ => ?_
  · unfold regenerate
    split <;> rename_i alloc <;> rw [alloc] at allocated
    · exact .some allocated
    · exact .map (runGenerator_keeps k (by exact allocated) i a c _)
  · unfold generateNew
    split <;> rename_i alloc <;> rw [alloc] at allocated
    · exact .some allocated
    · rename_i buffer heap
      have prepared := prepareRecord_keeps (p := p) k (s := { t with heap }) allocated a c.nextOutseqno buffer
      split <;> rename_i eq <;> rw [eq] at prepared
      · exact .some prepared
      · refine .map ((runGenerator_keeps k prepared i a c buffer).imp ?_)
        rintro ⟨ended, u⟩ held
        dsimp only [Progress.state]
        unfold recordBuffer
        dsimp only
        split <;> exact held

theorem prepareSegment_keeps (i : Nat) (a : Addr) (c : HttpConnection) (h : HandlerRef)
    : Ensures (prepareSegment p i a c h s) fun r => Inv r.state.heap := by
  have prepared := k.crPrepare inv (.service a)
  unfold prepareSegment
  dsimp only
  split <;> rename_i eq <;> rw [Server.setOutput] at eq <;> rw [eq] at prepared
  · exact .some prepared
  · refine .map ?_
    refine Ensures.imp (P := fun r => Inv r.state.heap) ?_ fun progress held => ?_
    · unfold nextSegment
      refine .ite (fun _ => .map ?_) fun _ => generate_keeps k (by exact prepared) i a c _
      refine .bind .trivial fun r _ => ?_
      split
      · exact .none
      · exact .some prepared
    · cases progress <;> exact held

omit k inv in
theorem sendPacket_heap {i : Nat} {s s' : Server} (send : sendPacket p i s = some s') : s'.heap = s.heap := by
  obtain ⟨_, _, _, _, _, _, _, rfl⟩ := sendPacket_spec send
  rfl

omit k inv in
theorem emit_heap {i : Nat} {h : HandlerRef} {ended : Bool} {s s' : Server} (send : emit p i h ended s = some s')
    : s'.heap = s.heap := by
  have multicast {j : Nat} {s s' : Server} (send : multicastTo p h ended j s = some s') : s'.heap = s.heap := by
    unfold multicastTo at send
    rw [Option.bind_eq_bind, Option.bind_eq_some_iff] at send
    obtain ⟨connection, -, send⟩ := send
    split at send
    · rw [Option.some.inj send]
    · split_ifs at send
      · rw [Option.bind_eq_some_iff] at send
        obtain ⟨t, first, last⟩ := send
        exact (endStream_onlyAt last).1.heap.trans (sendPacket_heap first)
      · exact (endStream_onlyAt send).1.heap
      · exact sendPacket_heap send
      · rw [Option.some.inj send]
  unfold emit at send
  split_ifs at send
  · generalize List.range s.connections.length = js at send
    induction js generalizing s with
    | nil =>
        simp only [List.foldlM_nil, Option.pure_def, Option.some.injEq] at send
        rw [send]
    | cons j js ih =>
        rw [List.foldlM_cons, Option.bind_eq_bind, Option.bind_eq_some_iff] at send
        obtain ⟨t, first, rest⟩ := send
        exact (ih rest).trans (multicast first)
  · exact sendPacket_heap send

theorem concludeSegment_keeps (i : Nat) (a : Addr) (h : HandlerRef) (retransmitting ended : Bool)
    : Ensures (concludeSegment p i a h retransmitting ended s) fun s => Inv s.heap := by
  have freed : Inv (if (s.service a).isPersistent then s
      else { s with heap := s.heap.memFree s.currOutput.buffer p.outputBufferSize }).heap := by
    split
    · exact inv
    · exact k.memFree _ _ inv
  unfold concludeSegment
  dsimp only
  generalize (if (s.service a).isPersistent then s
    else { s with heap := s.heap.memFree s.currOutput.buffer p.outputBufferSize }) = t at freed ⊢
  refine .bind .trivial fun c _ => .ite (fun _ => .some ?_) fun _ => .some ?_
  · dsimp only [Server.setHttp]
    refine k.memFree _ _ (cleanService_keeps k ?_ a none)
    split <;> exact freed
  · split <;> exact freed

theorem sendGenerator_keeps (i : Nat) (h : HandlerRef) (resource : DynamicResource)
    : Ensures (sendGenerator p i h resource s) fun s => Inv s.heap := by
  cases here : s.http i with
  | none =>
      intro s' send
      simp [sendGenerator, here] at send
  | some c =>
      have opened := openService_keeps (p := p) k inv i c h resource
      rw [sendGenerator_eq here]
      cases eq : openService p i c h resource s with
      | mk service t =>
      rw [eq] at opened
      cases service with
      | none => exact .some opened
      | some a =>
          dsimp only at opened ⊢
          cases here' : t.http i with
          | none =>
              intro s' send
              simp [sendService, here'] at send
          | some c' =>
              rw [sendService_eq here']
              refine .bind (prepareSegment_keeps k opened i a c' h) fun progress held => ?_
              cases progress with
              | stop u => exact .some held
              | go ended u =>
                  refine .bind (P := fun v => Inv v.heap) ?_ fun v held => concludeSegment_keeps k held i a h _ ended
                  intro v emitted
                  rw [emit_heap emitted]
                  exact held

theorem sendControl_keeps (i : Nat) (old : Option HandlerRef) : Ensures (sendControl p i old s) fun s => Inv s.heap := by
  refine .bind (P := fun t => Inv t.heap) ?_ fun t held => .bind .trivial fun c _ => ?_
  · intro t sent
    rw [sendPacket_heap sent]
    exact inv
  · refine .ite (fun _ => freeConnection_keeps k (by exact held) i) fun _ => ?_
    cases old with
    | none => exact .some held
    | some h => exact .ite (fun _ => .some held) fun _ => .some held

theorem smewsSend_keeps : Ensures (smewsSend p s) fun s => Inv s.heap := by
  refine .ite (fun _ => .some inv) fun _ => ?_
  split
  · exact .some inv
  · refine .bind .trivial fun connection _ => ?_
    split
    · unfold sendGpIp
      split
      · refine .bind .trivial fun k' _ => freeConnection_keeps k ?_ _
        exact inv
      · exact .none
    · refine .bind .trivial fun c _ => .ite (fun _ => sendControl_keeps k ?_ _ _) fun _ => ?_
      · exact inv
      · refine .bind .trivial fun h _ => ?_
        split
        · exact sendControl_keeps k (by exact inv) _ none
        · intro t sent
          rw [sendPacket_heap sent]
          exact inv
        · exact sendGenerator_keeps k (by exact inv) _ h _
        · exact .none

end Emission

--------------------------------------------------
-- Events
--------------------------------------------------

/-- Every event keeps what the calls of the allocator keep. -/
theorem step_keeps {event : Event} {s s' : Server} (step : Step p s event s') (inv : Inv s.heap) : Inv s'.heap := by
  cases event with
  | receive seg => exact smewsReceive_keeps k inv seg s' step
  | receiveGpIp srcAddr protocol payload => exact smewsReceiveGpIp_keeps k inv srcAddr protocol payload s' step
  | send => exact smewsSend_keeps k inv s' step
  | retransmit =>
      cases step
      exact inv
  | push handler =>
      cases step
      unfold serverPush
      split <;> exact inv
  | packetOut protocol address =>
      cases step
      unfold requestPacketOutCall
      split
      · exact inv
      · exact addConnection_keeps k inv _

omit k

--------------------------------------------------
-- Names
--------------------------------------------------

/-- Names are given in order. -/
theorem allocatorInv_next (n : Nat) : AllocatorInv fun h => n ≤ h.next where
  memAlloc := by
    intro h bytes le
    unfold Heap.memAlloc
    split <;> exact Nat.le_succ_of_le le
  memFree := by
    intro h a bytes le
    unfold Heap.memFree
    split
    · exact le
    · split <;> exact le
  congr := fun le next _ => next ▸ le

end Smews.System
