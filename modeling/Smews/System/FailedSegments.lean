import Smews.Output.Resuming
import Smews.System.Allocations

/-! A generator segment for which memory runs out: nothing is sent, what was allocated for it is freed, and the
connection is served again later.
-/

namespace Smews.System

open Smews.Core Output Runs

--------------------------------------------------
-- Failures
--------------------------------------------------

def isFailure : MemCall → Bool
  | .failed _ => true
  | _ => false

/-- The number of allocations that failed. -/
def failures (h : Heap) : Nat := h.calls.countP isFailure

theorem memAlloc_failures {h h' : Heap} {n : UInt16} {b : Addr} (alloc : h.memAlloc n = (some b, h'))
    : failures h' = failures h := by
  unfold Heap.memAlloc at alloc
  split at alloc
  · cases alloc
  · cases alloc
    simp [failures, isFailure]

/-- Blocks were freed at most. -/
structure Releases (h h' : Heap) : Prop where
  starts : h'.starts = h.starts
  released : ∃ new, h'.calls = h.calls ++ new ∧ ∀ call ∈ new, ∃ block, call = .free block

theorem Releases.of_calls {h h' : Heap} (calls : h'.calls = h.calls) (starts : h'.starts = h.starts) : Releases h h' :=
  ⟨starts, [], by rw [calls, List.append_nil], fun call mem => absurd mem List.not_mem_nil⟩

theorem Releases.trans {h h' h'' : Heap} (first : Releases h h') (second : Releases h' h'') : Releases h h'' := by
  obtain ⟨new, calls, frees⟩ := first.released
  obtain ⟨new', calls', frees'⟩ := second.released
  refine ⟨second.starts.trans first.starts, new ++ new', by rw [calls', calls, List.append_assoc], fun call mem => ?_⟩
  exact (List.mem_append.mp mem).elim (frees call) (frees' call)

theorem Releases.congr {h h' h'' : Heap} (releases : Releases h h') (calls : h''.calls = h'.calls)
    (starts : h''.starts = h'.starts)
    : Releases h h'' :=
  releases.trans (.of_calls calls starts)

theorem Releases.memFree (h : Heap) (a : Option Addr) (n : UInt16) : Releases h (h.memFree a n) := by
  unfold Heap.memFree
  split
  · exact .of_calls rfl rfl
  · split
    · exact .of_calls rfl rfl
    · exact ⟨rfl, _, rfl, fun call mem => ⟨_, List.mem_singleton.mp mem⟩⟩

theorem Releases.failures {h h' : Heap} (releases : Releases h h') : failures h' = failures h := by
  obtain ⟨new, calls, frees⟩ := releases.released
  have none : new.countP isFailure = 0 := by
    rw [List.countP_eq_zero]
    intro call mem
    obtain ⟨block, rfl⟩ := frees call mem
    exact Bool.false_ne_true
  rw [System.failures, System.failures, calls, List.countP_append, none, Nat.add_zero]

theorem memAlloc_still {h h' : Heap} {n : UInt16} {b : Option Addr} (alloc : h.memAlloc n = (b, h')) : Still h h' := by
  unfold Heap.memAlloc at alloc
  split at alloc <;> cases alloc <;>
    exact ⟨Nat.le_succ _, rfl, rfl, rfl, rfl, fun _ _ => rfl, rfl, rfl, rfl⟩

--------------------------------------------------
-- Blocks that are given back
--------------------------------------------------

/-- Only the allocator was called, and what it gave was freed again; so were the blocks that were given before. -/
structure GaveBack (before : List Memory.Block) (h h' : Heap) : Prop where
  still : Still h h'
  savedStack : h'.savedStack = h.savedStack
  released : ∃ new, h'.calls = h.calls ++ new
    ∧ ∀ block, block ∈ before ∨ .alloc block ∈ new → block.bytes ≠ 0 → .free block ∈ new

section Blocks

variable {before : List Memory.Block} {h h' : Heap} {n : UInt16} {b : Addr}

/-- An allocation that fails. -/
theorem GaveBack.failed (alloc : h.memAlloc n = (none, h')) : GaveBack [] h h' := by
  have still := memAlloc_still alloc
  unfold Heap.memAlloc at alloc
  split at alloc
  · cases alloc
    refine ⟨still, rfl, [.failed n], rfl, ?_⟩
    rintro block (mem | mem) _
    · cases mem
    · simp at mem
  · cases alloc

/-- A block is freed. -/
theorem GaveBack.free (returned : GaveBack before h h') (b : Addr) (n : UInt16)
    : GaveBack (⟨b, n⟩ :: before) h (h'.memFree (some b) n) := by
  obtain ⟨still, saved, new, calls, released⟩ := returned
  have freed := still.trans (Still.memFree h' (some b) n)
  by_cases empty : n = 0
  · have same : h'.memFree (some b) n = h' := by simp [Heap.memFree, empty]
    rw [same] at freed ⊢
    refine ⟨freed, saved, new, calls, ?_⟩
    rintro block (mem | mem) nonempty
    · rcases List.mem_cons.mp mem with rfl | mem
      · exact absurd empty nonempty
      · exact released block (.inl mem) nonempty
    · exact released block (.inr mem) nonempty
  · refine ⟨freed, ?_, new ++ [.free ⟨b, n⟩], ?_, ?_⟩
    · simp [Heap.memFree, empty, saved]
    · simp [Heap.memFree, empty, calls]
    · rintro block (mem | mem) nonempty
      · rcases List.mem_cons.mp mem with rfl | mem
        · exact List.mem_append_right _ (List.mem_singleton_self _)
        · exact List.mem_append_left _ (released block (.inl mem) nonempty)
      · rcases List.mem_append.mp mem with mem | mem
        · exact List.mem_append_left _ (released block (.inr mem) nonempty)
        · simp at mem

/-- A block was allocated before. -/
theorem GaveBack.allocated {h₁ : Heap} (alloc : h.memAlloc n = (some b, h₁))
    (returned : GaveBack (⟨b, n⟩ :: before) h₁ h')
    : GaveBack before h h' := by
  obtain ⟨still, saved, new, calls, released⟩ := returned
  have given := memAlloc_still alloc
  unfold Heap.memAlloc at alloc
  split at alloc
  · cases alloc
  · cases alloc
    refine ⟨given.trans still, saved, .alloc ⟨h.next, n⟩ :: new, ?_, ?_⟩
    · simpa using calls
    · rintro block (mem | mem) nonempty
      · exact List.mem_cons_of_mem _ (released block (.inl (List.mem_cons_of_mem _ mem)) nonempty)
      · rcases List.mem_cons.mp mem with same | mem
        · cases same
          exact List.mem_cons_of_mem _ (released _ (.inl List.mem_cons_self) nonempty)
        · exact List.mem_cons_of_mem _ (released block (.inr mem) nonempty)

end Blocks

--------------------------------------------------
-- The generation of a segment
--------------------------------------------------

/-- What became of a part of a generation: either no allocation failed, or all is given back. -/
def Attempted {α : Type} (before : List Memory.Block) (s : Server) : Progress α → Prop
  | .stop s' => ∃ heap, s' = { s with heap } ∧ GaveBack before s.heap heap
  | .go _ s' => failures s'.heap = failures s.heap

section Generation

variable {p : Program}

theorem contextBackup_attempted (a addr : Addr) (seqno : UInt32) (header : ServiceHeader) (s : Server)
    : match contextBackup p a addr seqno header s with
      | (true, s') => failures s'.heap = failures s.heap
      | (false, s') => ∃ heap, s' = { s with heap } ∧ GaveBack [] s.heap heap := by
  unfold contextBackup
  dsimp only
  cases alloc : s.heap.memAlloc p.sizeofContext with
  | mk new heap =>
  cases new with
  | none => exact ⟨heap, rfl, .failed alloc⟩
  | some new =>
      have kept := memAlloc_failures alloc
      dsimp only
      by_cases empty : (s.heap.coroutine (.service a)).currContext.sp = 0
      · simp only [empty, ne_eq, not_true_eq_false, and_false, if_false]
        exact kept
      · rw [if_neg empty]
        cases alloc' : heap.memAlloc (s.heap.coroutine (.service a)).currContext.sp with
        | mk stack heap' =>
        cases stack with
        | none =>
            simp only [empty, ne_eq, not_false_eq_true, Option.isNone_none, and_self, if_true]
            exact ⟨_, rfl, .allocated alloc ((GaveBack.failed alloc').free new p.sizeofContext)⟩
        | some b =>
            simp only [Option.isNone_some, Bool.false_eq_true, false_and, if_false]
            exact (memAlloc_failures alloc').trans kept

theorem prepareRecord_attempted (a : Addr) (seqno : UInt32) (buffer : Addr) (s : Server)
    : Attempted [⟨buffer, p.outputBufferSize⟩] s (prepareRecord p a seqno buffer s) := by
  unfold prepareRecord
  dsimp only
  cases alloc : s.heap.memAlloc p.sizeofInFlightInfos with
  | mk record heap =>
  cases record with
  | none => exact ⟨_, rfl, (GaveBack.failed alloc).free buffer p.outputBufferSize⟩
  | some addr =>
      have kept := memAlloc_failures alloc
      dsimp only
      split
      · exact kept
      · have backup := contextBackup_attempted (p := p) a addr seqno s.currOutput.serviceHeader { s with heap }
        revert backup
        generalize contextBackup p a addr seqno s.currOutput.serviceHeader { s with heap } = result
        obtain ⟨ok, t⟩ := result
        cases ok with
        | true => exact fun backup => backup.trans kept
        | false =>
            rintro ⟨heap', rfl, returned⟩
            exact ⟨_, rfl, .allocated alloc ((returned.free buffer p.outputBufferSize).free addr p.sizeofInFlightInfos)⟩

theorem runGenerator_failures {i : Nat} {a : Addr} {c : HttpConnection} {buffer : Addr} {s s' : Server} {ended : Bool}
    (run : runGenerator p i a c buffer s = some (ended, s'))
    : failures s'.heap = failures s.heap := by
  unfold runGenerator at run
  rw [Option.bind_eq_bind, Option.bind_eq_some_iff] at run
  obtain ⟨⟨⟨frame, bytes⟩, heap⟩, ran, rest⟩ := run
  have kept : failures heap = failures s.heap := by
    unfold runOutput at ran
    dsimp only at ran
    split at ran
    · split_ifs at ran
      rw [Option.bind_eq_bind, Option.bind_eq_some_iff] at ran
      obtain ⟨start, -, ran⟩ := ran
      rw [Option.some.injEq, Prod.mk.injEq] at ran
      rw [← ran.2]
      rfl
    · split at ran
      · rw [Option.some.injEq, Prod.mk.injEq] at ran
        rw [← ran.2]
      · cases ran
    · cases ran
  cases frame with
  | some frame =>
      cases rest
      exact kept
  | none =>
      cases rest
      unfold cleanPostData
      split
      · exact kept
      · exact (Releases.memFree _ _ _).failures.trans kept

/-- The generation of a segment stops before the generator runs. -/
theorem generate_attempted {i : Nat} {a : Addr} {c : HttpConnection} {retransmitting : Bool} {s : Server}
    {progress : Progress Bool} (generated : generate p i a c retransmitting s = some progress)
    : Attempted [] (setupSegment a c.nextOutseqno retransmitting s) progress := by
  unfold generate at generated
  dsimp only at generated
  generalize setupSegment a c.nextOutseqno retransmitting s = t at generated ⊢
  split_ifs at generated with terminated again
  · cases generated
    rfl
  · unfold regenerate at generated
    cases alloc : t.heap.memAlloc p.outputBufferSize with
    | mk buffer heap =>
    rw [alloc] at generated
    cases buffer with
    | none =>
        cases generated
        exact ⟨heap, rfl, .failed alloc⟩
    | some buffer =>
        obtain ⟨⟨ended, u⟩, run, rfl⟩ := Option.map_eq_some_iff.mp generated
        exact (runGenerator_failures run).trans (memAlloc_failures alloc)
  · unfold generateNew at generated
    cases alloc : t.heap.memAlloc p.outputBufferSize with
    | mk buffer heap =>
    rw [alloc] at generated
    cases buffer with
    | none =>
        cases generated
        exact ⟨heap, rfl, .failed alloc⟩
    | some buffer =>
        have attempted := prepareRecord_attempted (p := p) a c.nextOutseqno buffer { t with heap }
        dsimp only at generated
        cases prepared : prepareRecord p a c.nextOutseqno buffer { t with heap } with
        | stop u =>
            rw [prepared] at attempted generated
            cases generated
            obtain ⟨heap', rfl, returned⟩ := attempted
            exact ⟨heap', rfl, .allocated alloc returned⟩
        | go addr u =>
            rw [prepared] at attempted generated
            obtain ⟨⟨ended, v⟩, run, rfl⟩ := Option.map_eq_some_iff.mp generated
            have recorded : (recordBuffer a addr c.nextOutseqno buffer v).heap = v.heap := by
              unfold recordBuffer
              dsimp only
              split <;> rfl
            show failures (recordBuffer a addr c.nextOutseqno buffer v).heap = _
            rw [recorded, runGenerator_failures run]
            exact Eq.trans attempted (memAlloc_failures alloc)

end Generation

--------------------------------------------------
-- The coroutine of a segment
--------------------------------------------------

section Preparation

variable {p : Program} {h h' : Heap}

/-- `cr_prepare` fails where the stack of another coroutine cannot be saved. -/
theorem crPrepare_failed {r : CrRef} (prepared : h.crPrepare r = (false, h'))
    : ∃ n, h'.calls = h.calls ++ [.failed n] ∧ h'.starts = h.starts := by
  unfold Heap.crPrepare at prepared
  split at prepared
  · cases prepared
  unfold Heap.crEvict at prepared
  cases stack : h.crInStack with
  | none =>
      rw [stack] at prepared
      cases prepared
  | some other =>
      rw [stack] at prepared
      dsimp only at prepared
      unfold Heap.memAlloc at prepared
      by_cases exhausted : h.exhausted h.next
      · rw [if_pos exhausted] at prepared
        cases prepared
        exact ⟨_, rfl, rfl⟩
      · rw [if_neg exhausted] at prepared
        cases prepared

/-- What `cr_prepare` allocates is the block of the stack that it saves. -/
structure Readied (r : CrRef) (h h' : Heap) : Prop where
  starts : h'.starts = h.starts
  failures : failures h' = failures h
  blocks : ∃ new, h'.calls = h.calls ++ new ∧ ∀ block, .alloc block ∈ new →
    ∃ other ≠ r, h.crInStack = some other ∧ (h'.coroutine other).currContext.stack = some block.addr

theorem crInstall_releases (h : Heap) (r : CrRef) : Releases h (h.crInstall r) := by
  unfold Heap.crInstall
  dsimp only
  split
  · exact .of_calls rfl rfl
  · rename_i a _
    have loaded : Releases h { h with sharedStack := h.savedStack a, crInStack := some r } := .of_calls rfl rfl
    exact (loaded.trans (.memFree _ (some a) (h.coroutine r).currContext.stackSize)).congr rfl rfl

theorem crInstall_coroutine (h : Heap) {r other : CrRef} (ne : other ≠ r)
    : (h.crInstall r).coroutine other = h.coroutine other := by
  unfold Heap.crInstall
  dsimp only
  split
  · rfl
  · simp [Heap.setContext, Heap.setCoroutine, ne]

theorem crPrepare_readied {r : CrRef} (prepared : h.crPrepare r = (true, h')) : Readied r h h' := by
  unfold Heap.crPrepare at prepared
  split at prepared
  · cases prepared
    exact ⟨rfl, rfl, [], (List.append_nil _).symm, fun block mem => absurd mem List.not_mem_nil⟩
  rename_i notHere
  unfold Heap.crEvict at prepared
  cases stack : h.crInStack with
  | none =>
      rw [stack] at prepared
      cases prepared
      have releases := crInstall_releases h r
      obtain ⟨new, calls, frees⟩ := releases.released
      refine ⟨releases.starts, releases.failures, new, calls, fun block mem => ?_⟩
      obtain ⟨block', freed⟩ := frees _ mem
      cases freed
  | some other =>
      rw [stack] at prepared notHere
      dsimp only at prepared
      unfold Heap.memAlloc at prepared
      by_cases exhausted : h.exhausted h.next
      · rw [if_pos exhausted] at prepared
        cases prepared
      · rw [if_neg exhausted] at prepared
        dsimp only at prepared
        generalize evicted : ({ h with
            next := h.next + 1
            calls := h.calls ++ [.alloc ⟨h.next, (h.coroutine other).currContext.sp⟩]
            size := Function.update h.size h.next (h.coroutine other).currContext.sp
            savedStack := Function.update h.savedStack h.next h.sharedStack } : Heap).setContext other
              { (h.coroutine other).currContext with
                stack := some h.next
                stackSize := (h.coroutine other).currContext.sp % 0x4000 } = saved at prepared
        cases prepared
        have ne : other ≠ r := fun same => notHere (congrArg some same)
        have releases := crInstall_releases saved r
        obtain ⟨new, calls, frees⟩ := releases.released
        have calls' : saved.calls = h.calls ++ [.alloc ⟨h.next, (h.coroutine other).currContext.sp⟩] := by
          rw [← evicted]
          rfl
        refine ⟨?_, ?_, .alloc ⟨h.next, (h.coroutine other).currContext.sp⟩ :: new,
          by rw [calls, calls', List.append_assoc]; rfl, fun block mem => ?_⟩
        · rw [releases.starts, ← evicted]
          rfl
        · rw [releases.failures, failures, calls', List.countP_append]
          rfl
        · rcases List.mem_cons.mp mem with own | freed
          · cases own
            refine ⟨other, ne, stack, ?_⟩
            rw [crInstall_coroutine saved ne, ← evicted]
            simp [Heap.setContext, Heap.setCoroutine]
          · obtain ⟨block', same⟩ := frees _ freed
            cases same

end Preparation

--------------------------------------------------
-- The preparation of a segment
--------------------------------------------------

/-- Nothing was sent, no handler ran and no service moved on. What was allocated is freed again, or holds the stack of
the coroutine that left the shared one.
-/
structure Spared (s s' : Server) : Prop where
  connections : s'.connections = s.connections
  service : s'.service = s.service
  rst : s'.rstConnection = s.rstConnection
  time : s'.lastTransmissionTime = s.lastTransmissionTime
  sent : s'.sent = s.sent
  outputDone : s'.outputDone = s.outputDone
  packetCalls : s'.packetCalls = s.packetCalls
  starts : s'.heap.starts = s.heap.starts
  blocks : ∃ new, s'.heap.calls = s.heap.calls ++ new ∧ ∀ block, .alloc block ∈ new → block.bytes ≠ 0 →
    .free block ∈ new ∨ ∃ r, s.heap.crInStack = some r
      ∧ (s'.heap.coroutine r).currContext.stack = some block.addr

section Segment

variable {p : Program} {i : Nat} {a : Addr} {c : HttpConnection} {h : HandlerRef} {s s' : Server}

/-- The initializations before a segment use no memory, and touch the coroutine of its service only. -/
theorem setupSegment_heap (a : Addr) (seqno : UInt32) (retransmitting : Bool) (s : Server)
    : ∃ heap currOutput, setupSegment a seqno retransmitting s = { s with heap, currOutput }
      ∧ heap.calls = s.heap.calls ∧ heap.starts = s.heap.starts
      ∧ ∀ r ≠ .service a, heap.coroutine r = s.heap.coroutine r := by
  unfold setupSegment setupHeader
  cases retransmitting with
  | false => exact ⟨s.heap, _, rfl, rfl, rfl, fun _ _ => rfl⟩
  | true =>
      rw [if_pos rfl]
      unfold contextRestore
      cases ifSelect (s.service a) seqno with
      | none => exact ⟨s.heap, _, rfl, rfl, rfl, fun _ _ => rfl⟩
      | some record =>
          cases infos : record.infos with
          | buffer b =>
              simp only [infos]
              exact ⟨s.heap, _, rfl, rfl, rfl, fun _ _ => rfl⟩
          | context b context =>
              simp only [infos]
              refine ⟨_, _, rfl, ?_, ?_, fun r ne => ?_⟩ <;> cases context.stack <;>
                simp [Heap.setContext, Heap.setCoroutine, *]

theorem prepareSegment_attempted {progress : Progress Bool}
    (prepared : prepareSegment p i a c h s = some progress)
    : match progress with
      | .stop s' => Spared s s'
      | .go _ s' => failures s'.heap = failures s.heap := by
  unfold prepareSegment at prepared
  dsimp only at prepared
  cases ready : (s.setOutput { s.currOutput with service := some a, nextOutseqno := c.nextOutseqno }).heap.crPrepare
      (.service a) with
  | mk ok heap =>
  rw [ready] at prepared
  cases ok with
  | false =>
      cases prepared
      obtain ⟨n, calls, starts⟩ := crPrepare_failed ready
      refine ⟨rfl, rfl, rfl, rfl, rfl, rfl, rfl, starts, [.failed n], calls, fun block mem => ?_⟩
      simp at mem
  | true =>
      have readied := crPrepare_readied ready
      obtain ⟨next, segment, rfl⟩ := Option.map_eq_some_iff.mp prepared
      unfold nextSegment at segment
      split_ifs at segment with again
      · obtain ⟨v, resent, rfl⟩ := Option.map_eq_some_iff.mp segment
        unfold resend at resent
        rw [Option.bind_eq_bind, Option.bind_eq_some_iff] at resent
        obtain ⟨record, -, stored⟩ := resent
        split at stored <;> cases stored
        exact readied.failures
      · have attempted := generate_attempted segment
        obtain ⟨heap', output, setup, calls, starts, others⟩ := setupSegment_heap a c.nextOutseqno
          (c.nextOutseqno != (s.service a).currOutseqno)
          { s.setOutput { s.currOutput with service := some a, nextOutseqno := c.nextOutseqno } with heap }
        have retransmission : (c.nextOutseqno != ((s.setOutput { s.currOutput with
            service := some a, nextOutseqno := c.nextOutseqno }).service a).currOutseqno)
              = (c.nextOutseqno != (s.service a).currOutseqno) := rfl
        rw [retransmission, setup] at attempted
        cases next with
        | go ended u =>
            exact Eq.trans attempted ((congrArg (List.countP isFailure) calls).trans readied.failures)
        | stop u =>
            obtain ⟨heap'', rfl, returned⟩ := attempted
            obtain ⟨new, calls', freed⟩ := returned.released
            obtain ⟨evicted, calls'', saved⟩ := readied.blocks
            refine ⟨rfl, rfl, rfl, rfl, rfl, rfl, rfl,
              (returned.still.starts.trans starts).trans readied.starts, evicted ++ new, ?_,
              fun block mem nonempty => ?_⟩
            · rw [← List.append_assoc]
              exact calls'.trans (congrArg (· ++ new) (calls.trans calls''))
            · rcases List.mem_append.mp mem with mem | mem
              · obtain ⟨other, ne, stack, backed⟩ := saved block mem
                refine .inr ⟨other, stack, ?_⟩
                show (heap''.coroutine other).currContext.stack = _
                rw [returned.still.coroutine]
                exact (congrArg (·.currContext.stack) (others other ne)).trans backed
              · exact .inl (List.mem_append_right _ (freed block (.inr mem) nonempty))

--------------------------------------------------
-- The service of a segment
--------------------------------------------------

/-- A connection without what the beginning of a generated response sets. -/
def unopened (k : Connection) : Connection :=
  match k.protocol with
  | .gpip _ => k
  | .http c => { k with protocol := .http { c with
      generatorService := none
      finalOutseqno := 0
      cometStreaming := false
      cometPassive := false } }

/-- The connection at a position has the service `a`, and something to send. -/
def StillAble (p : Program) (i : Nat) (a : Addr) (s : Server) : Prop :=
  ∃ k c, s.connections[i]? = some ⟨k, .http c⟩ ∧ c.generatorService = some a
    ∧ (Connection.mk k (.http c)).ableToSend p

/-- A segment for which memory ran out. The service of its connection may be new; it is kept. -/
structure Postponed (p : Program) (i : Nat) (s s' : Server) : Prop where
  ring : s'.connections.map unopened = s.connections.map unopened
  waiting : ∃ k, s'.connections[i]? = some k ∧ k.ableToSend p
  service : ∀ b ≠ s.heap.next, s'.service b = s.service b
  rst : s'.rstConnection = s.rstConnection
  time : s'.lastTransmissionTime = s.lastTransmissionTime
  sent : s'.sent = s.sent
  outputDone : s'.outputDone = s.outputDone
  packetCalls : s'.packetCalls = s.packetCalls
  starts : s'.heap.starts = s.heap.starts
  blocks : ∃ new, s'.heap.calls = s.heap.calls ++ new ∧ ∀ block, .alloc block ∈ new → block.bytes ≠ 0 →
    .free block ∈ new
      ∨ (∃ r, s.heap.crInStack = some r ∧ (s'.heap.coroutine r).currContext.stack = some block.addr)
      ∨ StillAble p i block.addr s'

theorem Spared.postponed (spared : Spared s s') {k : Connection} (at_i : s.connections[i]? = some k)
    (able : k.ableToSend p)
    : Postponed p i s s' := by
  obtain ⟨connections, service, rst, time, sent, done, calls, starts, new, heapCalls, blocks⟩ := spared
  refine ⟨congrArg _ connections, ⟨k, (congrArg (·[i]?) connections).trans at_i, able⟩,
    fun b _ => congrFun service b, rst, time, sent, done, calls, starts, new, heapCalls, fun block mem nonempty => ?_⟩
  exact (blocks block mem nonempty).imp_right .inl

theorem Spared.of_output {output : CurrOutput} (spared : Spared (s.setOutput output) s') : Spared s s' :=
  ⟨spared.connections, spared.service, spared.rst, spared.time, spared.sent, spared.outputDone, spared.packetCalls,
    spared.starts, spared.blocks⟩

theorem Postponed.of_output {output : CurrOutput} (postponed : Postponed p i (s.setOutput output) s')
    : Postponed p i s s' :=
  ⟨postponed.ring, postponed.waiting, postponed.service, postponed.rst, postponed.time, postponed.sent,
    postponed.outputDone, postponed.packetCalls, postponed.starts, postponed.blocks⟩

/-- The connection for which a new service was allocated. -/
theorem initService_waiting {k : Addr} (resource : DynamicResource) (at_i : s.connections[i]? = some ⟨k, .http c⟩)
    (handler : c.outputHandler = some h) (data : p.isControl h = false) (noAck : c.cometSendAck = false)
    (able : (Connection.mk k (.http c)).ableToSend p)
    : StillAble p i a (initService p i c h resource a s) := by
  have here : s.http i = some c := by
    rw [Server.http, at_i]
  obtain ⟨k', at_i'⟩ := http_eq (initService_http (p := p) (a := a) resource here handler)
  refine ⟨k', _, at_i', rfl, ?_⟩
  have last : c.nextOutseqno ≠ c.nextOutseqno - 1 := by grind
  simp only [Connection.ableToSend, HttpConnection.somethingToSend, handler, data, noAck, Bool.or_self,
    Bool.false_eq_true, if_false, Bool.and_eq_true, decide_eq_true_eq, bne_iff_ne, Bool.not_eq_true'] at able ⊢
  obtain ⟨⟨⟨state, something⟩, active⟩, window⟩ := able
  refine ⟨⟨⟨state, last⟩, ?_⟩, window⟩
  split
  · rfl
  · exact active

theorem initService_ring (resource : DynamicResource) (here : s.http i = some c)
    : (initService p i c h resource a s).connections.map unopened = s.connections.map unopened := by
  unfold initService
  dsimp only
  split
  · rw [map_markPassive unopened i h _ fun _ _ _ => rfl]
    exact map_setHttp unopened here fun _ => rfl
  · exact map_setHttp unopened here fun _ => rfl

/-- A new service is initialized without the allocator. -/
theorem initService_frame (resource : DynamicResource) (b : Addr) (s : Server)
    : ∃ heap service connections currOutput,
        initService p i c h resource b s = { s with heap, service, connections, currOutput }
          ∧ heap.calls = s.heap.calls ∧ heap.starts = s.heap.starts ∧ heap.crInStack = s.heap.crInStack
          ∧ ∀ d ≠ b, service d = s.service d := by
  unfold initService
  dsimp only
  split <;> exact ⟨_, _, _, _, rfl, rfl, rfl, rfl, fun d ne => Function.update_of_ne ne _ _⟩

/-- A new service is kept when its first segment is postponed. -/
theorem initService_postponed {resource : DynamicResource} {k : Addr} {heap : Heap} {t : Server}
    (alloc : s.heap.memAlloc p.sizeofService = (some a, heap)) (at_i : s.connections[i]? = some ⟨k, .http c⟩)
    (handler : c.outputHandler = some h) (data : p.isControl h = false) (noAck : c.cometSendAck = false)
    (able : (Connection.mk k (.http c)).ableToSend p)
    (spared : Spared (initService p i c h resource a { s with heap }) t)
    : Postponed p i s t := by
  have new : a = s.heap.next ∧ heap.calls = s.heap.calls ++ [.alloc ⟨a, p.sizeofService⟩]
      ∧ heap.starts = s.heap.starts ∧ heap.crInStack = s.heap.crInStack := by
    unfold Heap.memAlloc at alloc
    split at alloc
    · cases alloc
    · cases alloc
      exact ⟨rfl, rfl, rfl, rfl⟩
  obtain ⟨rfl, given, starts, stack⟩ := new
  have waiting : StillAble p i s.heap.next _ :=
    initService_waiting (a := s.heap.next) (s := { s with heap }) resource at_i handler data noAck able
  have ring := initService_ring (p := p) (h := h) (a := s.heap.next) (s := { s with heap }) resource
    (show s.http i = some c by rw [Server.http, at_i])
  obtain ⟨heap', service, connections, output, init, calls', starts', stack', others⟩ :=
    initService_frame (p := p) (i := i) (c := c) (h := h) resource s.heap.next { s with heap }
  rw [init] at waiting ring spared
  obtain ⟨kept, service', rst, time, sent, done, packets, starts'', new, calls'', blocks⟩ := spared
  have waiting' : StillAble p i s.heap.next t := by
    unfold StillAble at waiting ⊢
    rwa [kept]
  refine ⟨(congrArg _ kept).trans ring, ?_, fun b ne => (congrFun service' b).trans (others b ne), rst, time, sent,
    done, packets, starts''.trans (starts'.trans starts), .alloc ⟨s.heap.next, p.sizeofService⟩ :: new, ?_,
    fun block mem nonempty => ?_⟩
  · obtain ⟨k', c', at_i', -, able'⟩ := waiting'
    exact ⟨_, at_i', able'⟩
  · rw [calls'', calls', given, List.append_assoc]
    rfl
  · rcases List.mem_cons.mp mem with own | mem
    · cases own
      exact .inr (.inr waiting')
    · rcases blocks block mem nonempty with freed | ⟨r, inStack, backed⟩
      · exact .inl (List.mem_cons_of_mem _ freed)
      · exact .inr (.inl ⟨r, stack.symm.trans (stack'.symm.trans inStack), backed⟩)

/-- The service of a segment is there, or a new one is initialized. -/
theorem openService_attempted {a : Option Addr} {resource : DynamicResource} {k : Addr}
    (opened : openService p i c h resource s = (a, s')) (at_i : s.connections[i]? = some ⟨k, .http c⟩)
    (handler : c.outputHandler = some h) (data : p.isControl h = false) (noAck : c.cometSendAck = false)
    (able : (Connection.mk k (.http c)).ableToSend p)
    : match a with
      | none => Postponed p i s s'
      | some _ => failures s'.heap = failures s.heap ∧ ∀ t, Spared s' t → Postponed p i s t := by
  unfold openService at opened
  dsimp only at opened
  cases service : c.generatorService with
  | some a =>
      rw [service] at opened
      cases opened
      exact ⟨rfl, fun t spared => (Spared.of_output spared).postponed at_i able⟩
  | none =>
      rw [service] at opened
      unfold createService at opened
      dsimp only at opened
      cases alloc : (s.setOutput { s.currOutput with maxBytes := maxBytes p c.tcpMss .none }).heap.memAlloc
          p.sizeofService with
      | mk new heap =>
      rw [alloc] at opened
      cases new with
      | none =>
          cases opened
          have returned := GaveBack.failed alloc
          obtain ⟨new, calls, freed⟩ := returned.released
          have spared : Spared s
              { s.setOutput { s.currOutput with maxBytes := maxBytes p c.tcpMss .none } with heap } :=
            ⟨rfl, rfl, rfl, rfl, rfl, rfl, rfl, returned.still.starts, new, calls, fun block mem nonempty =>
              .inl (freed block (.inr mem) nonempty)⟩
          exact spared.postponed at_i able
      | some a =>
          cases opened
          refine ⟨?_, fun t spared => (initService_postponed alloc at_i handler data noAck able spared).of_output⟩
          obtain ⟨heap', service, connections, output, init, calls, -⟩ := initService_frame (p := p) (i := i) (c := c)
            (h := h) resource a { s.setOutput { s.currOutput with maxBytes := maxBytes p c.tcpMss .none } with heap }
          rw [init]
          exact (congrArg (List.countP isFailure) calls).trans (memAlloc_failures alloc)

--------------------------------------------------
-- The rest of `smews_send`
--------------------------------------------------

theorem Releases.freeInFlight (h : Heap) (persistent : Bool) (r : InFlight)
    : Releases h (h.freeInFlight p persistent r) := by
  unfold Heap.freeInFlight
  refine Releases.trans ?_ (.memFree _ _ _)
  split
  · exact .memFree _ _ _
  · exact (Releases.memFree _ _ _).trans (.memFree _ _ _)
  · exact .of_calls rfl rfl

theorem cleanService_releases (a : Addr) (inack : Option UInt32) (s : Server)
    : Releases s.heap (s.cleanService p a inack).heap := by
  unfold Server.cleanService
  dsimp only
  generalize List.drop _ _ = freed
  generalize s.heap = heap
  induction freed generalizing heap with
  | nil => exact .of_calls rfl rfl
  | cons r freed ih => exact (Releases.freeInFlight heap _ r).trans (ih _)

theorem freeConnection_releases (free : s.freeConnection p i = some s') : Releases s.heap s'.heap := by
  unfold Server.freeConnection at free
  rw [Option.bind_eq_bind, Option.bind_eq_some_iff] at free
  obtain ⟨connection, -, rest⟩ := free
  dsimp only at rest
  split at rest
  · cases rest
    dsimp only
    exact .memFree _ _ _
  · rename_i c _
    rw [Option.bind_eq_bind, Option.bind_eq_some_iff] at rest
    obtain ⟨heap, freed, rest⟩ := rest
    cases rest
    have args : Releases s.heap heap := by
      unfold Heap.freeArgs at freed
      split at freed
      · cases freed
        exact .of_calls rfl rfl
      · unfold Heap.memFreePointer at freed
        split at freed <;> cases freed
        · exact .of_calls rfl rfl
        · exact .memFree _ _ _
    have service (t : Server) : Releases t.heap (t.freeService p c).heap := by
      unfold Server.freeService
      split
      · exact .of_calls rfl rfl
      · dsimp only
        exact (cleanService_releases _ none t).trans (.memFree _ _ _)
    dsimp only
    exact (args.trans (service { s with
        heap, connections := s.connections.drop (i + 1) ++ s.connections.take i })).trans (.memFree _ _ _)

theorem concludeSegment_releases {retransmitting ended : Bool}
    (concluded : concludeSegment p i a h retransmitting ended s = some s')
    : Releases s.heap s'.heap := by
  obtain ⟨t, buffer, rest⟩ : ∃ t : Server, Releases s.heap t.heap
      ∧ (t.http i).bind (fun c =>
        let t := if retransmitting then t
          else t.setService a { s.service a with
            serviceHeader := t.currOutput.serviceHeader
            currOutseqno := c.nextOutseqno }
        if (p.handler h).handlerStream ∧ ended ∧ c.inflight = 0 then
          let t := t.cleanService p a none
          let t := { t with heap := t.heap.memFree (some a) p.sizeofService }
          some (t.setHttp i { c with generatorService := none })
        else some t) = some s' := by
    refine ⟨_, ?_, concluded⟩
    split
    · exact .of_calls rfl rfl
    · exact .memFree _ _ _
  obtain ⟨c, -, rest⟩ := Option.bind_eq_some_iff.mp rest
  refine buffer.trans ?_
  have freed (t : Server) : Releases t.heap ((t.cleanService p a none).heap.memFree (some a) p.sizeofService) :=
    (cleanService_releases a none t).trans (.memFree _ _ _)
  dsimp only at rest
  split_ifs at rest <;> cases rest
  · exact freed t
  · exact freed (t.setService a _)
  · exact .of_calls rfl rfl
  · exact .of_calls rfl rfl

theorem sendControl_releases {old : Option HandlerRef} (send : sendControl p i old s = some s')
    : Releases s.heap s'.heap := by
  unfold sendControl at send
  rw [Option.bind_eq_bind, Option.bind_eq_some_iff] at send
  obtain ⟨t, packet, rest⟩ := send
  have heap := sendPacket_heap packet
  rw [Option.bind_eq_bind, Option.bind_eq_some_iff] at rest
  obtain ⟨c, -, rest⟩ := rest
  rw [← heap]
  dsimp only at rest
  split_ifs at rest
  · exact freeConnection_releases (s := t.setHttp i { c with outputHandler := none }) rest
  all_goals
    split at rest <;> cases rest <;> exact .of_calls rfl rfl

theorem sendGpIp_releases {g : GpIpConnection} (send : sendGpIp p i g s = some s') : Releases s.heap s'.heap := by
  unfold sendGpIp at send
  split at send
  · rw [Option.bind_eq_bind, Option.bind_eq_some_iff] at send
    obtain ⟨connection, -, rest⟩ := send
    have released := freeConnection_releases rest
    exact released
  · cases send

theorem sendService_attempted (send : sendService p i a h s = some s') (here : s.http i = some c)
    (failed : failures s'.heap ≠ failures s.heap)
    : Spared s s' := by
  rw [sendService_eq here, Option.bind_eq_some_iff] at send
  obtain ⟨progress, prepared, rest⟩ := send
  have attempted := prepareSegment_attempted prepared
  cases progress with
  | stop t =>
      cases rest
      exact attempted
  | go ended t =>
      obtain ⟨u, emitted, concluded⟩ := Option.bind_eq_some_iff.mp rest
      have same : failures s'.heap = failures s.heap := by
        rw [(concludeSegment_releases concluded).failures, emit_heap emitted]
        exact attempted
      exact absurd same failed

theorem sendGenerator_attempted {k : Addr} {resource : DynamicResource}
    (send : sendGenerator p i h resource s = some s') (at_i : s.connections[i]? = some ⟨k, .http c⟩)
    (handler : c.outputHandler = some h) (data : p.isControl h = false) (noAck : c.cometSendAck = false)
    (able : (Connection.mk k (.http c)).ableToSend p) (failed : failures s'.heap ≠ failures s.heap)
    : Postponed p i s s' := by
  have here : s.http i = some c := by
    rw [Server.http, at_i]
  rw [sendGenerator_eq here] at send
  cases opened : openService p i c h resource s with
  | mk b t =>
  have attempted := openService_attempted opened at_i handler data noAck able
  rw [opened] at send
  cases b with
  | none =>
      cases send
      exact attempted
  | some a =>
      obtain ⟨kept, postponed⟩ := attempted
      dsimp only at send
      cases here' : t.http i with
      | none =>
          unfold sendService at send
          rw [here'] at send
          cases send
      | some c' => exact postponed s' (sendService_attempted send here' (by rwa [kept]))

end Segment

/-- The server when memory runs out for the allocation `n`. -/
def starvedServer (n : Nat) : Server :=
  { bootServer with heap := { bootServer.heap with exhausted := fun m => m = n } }

end Smews.System
