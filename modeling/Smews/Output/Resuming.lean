import Smews.Output.Multicast

/-! The output coroutine of a service from one segment to the next: it is parked in the shared
stack or in a block, and its next run continues where it was suspended.
-/

namespace Smews.Output

open Smews.Core

variable {p : Program}

--------------------------------------------------
-- Runs of a generator
--------------------------------------------------

/-- A generator that does not fit the rest of the buffer is suspended by the call of `out_c` that
follows the last byte stored.
-/
theorem produce_suspends {m : UInt16} (k : Cont) (stored : List UInt8) (le : stored.length ≤ m.toNat)
    (long : m.toNat < stored.length + (outputs k).length)
    : ∃ x k', produce m k stored
        = (some (.outStore x k'), stored ++ (outputs k).take (m.toNat - stored.length))
      ∧ x :: outputs k' = (outputs k).drop (m.toNat - stored.length) := by
  induction k generalizing stored with
  | ret _ =>
      rw [outputs, List.length_nil] at long
      omega
  | outC x k ih =>
      have := m.toNat_lt
      by_cases full : stored.length = m.toNat
      · refine ⟨x, k, ?_, ?_⟩
        · rw [produce, if_pos (by rw [full, UInt16.ofNat_toNat]), full, Nat.sub_self, List.take_zero,
            List.append_nil]
        · rw [full, Nat.sub_self, List.drop_zero, outputs]
      · have room : UInt16.ofNat stored.length ≠ m := by
          intro eq
          have lengths := congrArg UInt16.toNat eq
          rw [UInt16.toNat_ofNat'] at lengths
          omega
        rw [outputs, List.length_cons] at long
        have stored' : (stored ++ [x]).length = stored.length + 1 := by simp
        obtain ⟨y, k', run, rest⟩ := ih (stored ++ [x]) (by omega) (by omega)
        have left : m.toNat - stored.length = m.toNat - (stored ++ [x]).length + 1 := by omega
        refine ⟨y, k', ?_, ?_⟩
        · rw [produce, if_neg room, run, outputs, left, List.take_succ_cons]
          simp
        · rw [outputs, left, List.drop_succ_cons, rest]
  | inC k ih => exact ih none stored le long

/-- A generator that fits the rest of the buffer stores all its bytes. -/
theorem produce_stores {m : UInt16} (k : Cont) (stored : List UInt8)
    (short : stored.length + (outputs k).length ≤ m.toNat)
    : produce m k stored = (none, stored ++ outputs k) := by
  induction k generalizing stored with
  | ret _ => simp [produce, outputs]
  | outC x k ih =>
      rw [outputs, List.length_cons] at short
      have := m.toNat_lt
      have room : UInt16.ofNat stored.length ≠ m := by
        intro eq
        have lengths := congrArg UInt16.toNat eq
        rw [UInt16.toNat_ofNat'] at lengths
        omega
      have stored' : (stored ++ [x]).length = stored.length + 1 := by simp
      rw [produce, if_neg room, ih (stored ++ [x]) (by omega), outputs]
      simp
  | inC k ih => exact ih none stored short

--------------------------------------------------
-- Bookkeeping
--------------------------------------------------

/-- Every allocation succeeds. -/
def Plentiful (h : Heap) : Prop := ∀ n, h.exhausted n = false

/-- Blocks are allocated and freed, and stacks are saved in new blocks. -/
structure Still (h h' : Heap) : Prop where
  next : h.next ≤ h'.next
  exhausted : h'.exhausted = h.exhausted
  chars : h'.chars = h.chars
  postData : h'.postData = h.postData
  coroutine : h'.coroutine = h.coroutine
  savedStack : ∀ b < h.next, h'.savedStack b = h.savedStack b
  crInStack : h'.crInStack = h.crInStack
  sharedStack : h'.sharedStack = h.sharedStack
  starts : h'.starts = h.starts

theorem Still.refl (h : Heap) : Still h h :=
  ⟨Nat.le_refl _, rfl, rfl, rfl, rfl, fun _ _ => rfl, rfl, rfl, rfl⟩

theorem Still.trans {h h' h'' : Heap} (first : Still h h') (second : Still h' h'') : Still h h'' :=
  ⟨
    first.next.trans second.next, second.exhausted.trans first.exhausted,
    second.chars.trans first.chars, second.postData.trans first.postData,
    second.coroutine.trans first.coroutine,
    fun b lt => (second.savedStack b (lt.trans_le first.next)).trans (first.savedStack b lt),
    second.crInStack.trans first.crInStack, second.sharedStack.trans first.sharedStack,
    second.starts.trans first.starts
  ⟩

theorem Still.memFree (h : Heap) (a : Option Addr) (n : UInt16) : Still h (h.memFree a n) := by
  unfold Heap.memFree
  split
  · exact .refl h
  · split
    · exact .refl h
    · exact ⟨Nat.le_refl _, rfl, rfl, rfl, rfl, fun _ _ => rfl, rfl, rfl, rfl⟩

theorem Still.plentiful {h h' : Heap} (still : Still h h') (plenty : Plentiful h) : Plentiful h' := by
  intro n
  rw [still.exhausted]
  exact plenty n

/-- A new block. -/
theorem memAlloc_plenty {h : Heap} (plenty : Plentiful h) (n : UInt16)
    : ∃ h', h.memAlloc n = (some h.next, h') ∧ Still h h' ∧ h.next < h'.next := by
  refine ⟨_, by rw [Heap.memAlloc, plenty, if_neg Bool.false_ne_true], ?_, Nat.lt_succ_self _⟩
  exact ⟨Nat.le_succ _, rfl, rfl, rfl, rfl, fun _ _ => rfl, rfl, rfl, rfl⟩

/-- The bookkeeping before a generator runs: only the in-flight records of its service change. -/
structure Recorded (a : Addr) (s s' : Server) : Prop where
  heap : Still s.heap s'.heap
  connections : s'.connections = s.connections
  sent : s'.sent = s.sent
  currOutput : s'.currOutput = s.currOutput
  rst : s'.rstConnection = s.rstConnection
  service : ∃ records, s'.service a = { s.service a with inFlightInfos := records }

theorem Recorded.of_heap {a : Addr} {s : Server} {heap : Heap} (still : Still s.heap heap)
    : Recorded a s { s with heap } :=
  ⟨still, rfl, rfl, rfl, rfl, _, rfl⟩

theorem Recorded.trans {a : Addr} {s s' s'' : Server} (first : Recorded a s s')
    (second : Recorded a s' s'')
    : Recorded a s s'' := by
  obtain ⟨records, service⟩ := second.service
  obtain ⟨_, service'⟩ := first.service
  exact ⟨
    first.heap.trans second.heap, second.connections.trans first.connections,
    second.sent.trans first.sent, second.currOutput.trans first.currOutput,
    second.rst.trans first.rst, records, by rw [service, service']
  ⟩

theorem contextBackup_plenty (a addr : Addr) (seqno : UInt32) (header : ServiceHeader) {s : Server}
    (plenty : Plentiful s.heap)
    : ∃ s', contextBackup p a addr seqno header s = (true, s') ∧ Recorded a s s' := by
  obtain ⟨heap, alloc, still, -⟩ := memAlloc_plenty plenty p.sizeofContext
  unfold contextBackup
  dsimp only
  rw [alloc]
  dsimp only
  set sp := (s.heap.coroutine (.service a)).currContext.sp
  by_cases empty : sp = 0
  · simp only [empty, ne_eq, not_true_eq_false, and_false, if_false]
    exact ⟨_, rfl, still, rfl, rfl, rfl, rfl, _, Function.update_self a _ s.service⟩
  · obtain ⟨heap', alloc', still', -⟩ := memAlloc_plenty (still.plentiful plenty) sp
    simp only [if_neg empty, alloc', Option.isNone_some, Bool.false_eq_true, false_and, if_false]
    refine ⟨_, rfl, still.trans ?_, rfl, rfl, rfl, rfl, _, Function.update_self a _ s.service⟩
    exact ⟨
      still'.next, still'.exhausted, still'.chars, still'.postData, still'.coroutine,
      fun b lt => (Function.update_of_ne lt.ne _ _).trans (still'.savedStack b lt),
      still'.crInStack, still'.sharedStack, still'.starts
    ⟩

/-- The preparation of a record succeeds. -/
theorem prepareRecord_plenty (a : Addr) (seqno : UInt32) (buffer : Addr) {s : Server}
    (plenty : Plentiful s.heap)
    : ∃ addr s', prepareRecord p a seqno buffer s = .go addr s' ∧ Recorded a s s' := by
  obtain ⟨heap, alloc, still, -⟩ := memAlloc_plenty plenty p.sizeofInFlightInfos
  unfold prepareRecord
  dsimp only
  rw [alloc]
  dsimp only
  by_cases persistent : (s.service a).isPersistent
  · rw [if_pos persistent]
    exact ⟨_, _, rfl, .of_heap still⟩
  · obtain ⟨s', backup, recorded⟩ := contextBackup_plenty (p := p) (s := { s with heap }) a
      s.heap.next seqno s.currOutput.serviceHeader
      (still.plentiful plenty)
    rw [if_neg persistent, backup]
    exact ⟨_, s', rfl, (Recorded.of_heap still).trans recorded⟩

--------------------------------------------------
-- Coroutines
--------------------------------------------------

/-- A coroutine with a frame on its stack, which is the shared one or was saved in a block. -/
structure Parked (h : Heap) (r : CrRef) (status : CrStatus) (frame : Frame) : Prop where
  status : (h.coroutine r).currContext.status = status
  stack : (h.crInStack = some r ∧ h.sharedStack = frame)
    ∨ (h.crInStack ≠ some r
      ∧ ∃ b < h.next, (h.coroutine r).currContext.stack = some b ∧ h.savedStack b = frame)

theorem Parked.still {h h' : Heap} {r : CrRef} {status : CrStatus} {frame : Frame}
    (parked : Parked h r status frame) (still : Still h h')
    : Parked h' r status frame := by
  refine ⟨by rw [still.coroutine]; exact parked.status, ?_⟩
  rcases parked.stack with ⟨inStack, shared⟩ | ⟨out, b, lt, stack, saved⟩
  · exact .inl ⟨still.crInStack.trans inStack, still.sharedStack.trans shared⟩
  · refine .inr ⟨by rw [still.crInStack]; exact out, b, lt.trans_le still.next, ?_, ?_⟩
    · rw [still.coroutine]
      exact stack
    · rw [still.savedStack b lt, saved]

/-- A coroutine that is about to run in the shared stack. -/
structure Prepared (h h' : Heap) (r : CrRef) : Prop where
  next : h.next ≤ h'.next
  exhausted : h'.exhausted = h.exhausted
  chars : h'.chars = h.chars
  postData : h'.postData = h.postData
  starts : h'.starts = h.starts
  crInStack : h'.crInStack = some r
  func : (h'.coroutine r).func = (h.coroutine r).func
  status : (h'.coroutine r).currContext.status = (h.coroutine r).currContext.status

theorem crEvict_plenty {h : Heap} (plenty : Plentiful h)
    : ∃ h', h.crEvict = (true, h') ∧ h.next ≤ h'.next ∧ h'.exhausted = h.exhausted
      ∧ h'.postData = h.postData ∧ ∀ b < h.next, h'.savedStack b = h.savedStack b := by
  unfold Heap.crEvict
  cases inStack : h.crInStack with
  | none => exact ⟨h, rfl, Nat.le_refl _, rfl, rfl, fun _ _ => rfl⟩
  | some r =>
      obtain ⟨heap, alloc, still, -⟩ := memAlloc_plenty plenty (h.coroutine r).currContext.sp
      dsimp only
      rw [alloc]
      exact ⟨_, rfl, still.next, still.exhausted, still.postData, fun b lt =>
        (Function.update_of_ne lt.ne _ _).trans (still.savedStack b lt)⟩

/-- A coroutine is moved to the shared stack, with its frame. -/
theorem crPrepare_plenty {h : Heap} (plenty : Plentiful h) (r : CrRef)
    : ∃ h', h.crPrepare r = (true, h') ∧ Prepared h h' r
      ∧ ∀ status frame, Parked h r status frame → h'.sharedStack = frame := by
  obtain ⟨func, status⟩ := h.crPrepare_coroutine r
  have chars := h.crPrepare_chars r
  have starts := h.crPrepare_starts r
  by_cases inStack : h.crInStack = some r
  · refine ⟨h, by rw [Heap.crPrepare, if_pos inStack], ?_, fun _ _ parked => ?_⟩
    · exact ⟨Nat.le_refl _, rfl, rfl, rfl, rfl, inStack, rfl, rfl⟩
    · rcases parked.stack with ⟨-, shared⟩ | ⟨out, -⟩
      · exact shared
      · exact absurd inStack out
  · obtain ⟨h1, evict, next, exhausted, postData, savedStack⟩ := crEvict_plenty plenty
    have kept : h1.coroutine r = h.coroutine r := by
      have := h.crEvict_coroutine inStack
      rwa [evict] at this
    have prepare : h.crPrepare r = (true, h1.crInstall r) := by
      rw [Heap.crPrepare, if_neg inStack, evict]
    rw [prepare] at func status chars starts
    refine ⟨h1.crInstall r, prepare, ?_, fun status frame parked => ?_⟩
    · have install : (h1.crInstall r).next = h1.next ∧ (h1.crInstall r).exhausted = h1.exhausted
          ∧ (h1.crInstall r).postData = h1.postData ∧ (h1.crInstall r).crInStack = some r := by
        unfold Heap.crInstall
        dsimp only
        split
        · exact ⟨rfl, rfl, rfl, rfl⟩
        · unfold Heap.memFree
          dsimp only
          split <;> exact ⟨rfl, rfl, rfl, rfl⟩
      exact ⟨
        by rw [install.1]; exact next, install.2.1.trans exhausted, chars,
        install.2.2.1.trans postData, starts, install.2.2.2, func, status
      ⟩
    · rcases parked.stack with ⟨in_, -⟩ | ⟨-, b, lt, stack, saved⟩
      · exact absurd in_ inStack
      · unfold Heap.crInstall
        dsimp only
        rw [kept, stack]
        dsimp only
        unfold Heap.memFree
        dsimp only
        split <;> exact (savedStack b lt).trans saved

--------------------------------------------------
-- The next run
--------------------------------------------------

/-- What the next run of the coroutine of a service does: how it stops, and the bytes it stores. -/
inductive Upcoming (p : Program) (s : Server) (a : Addr) (postOut : Bool) (m : UInt16)
    : Option Frame → List UInt8 → Prop
  | start (k : Cont) (status : (s.heap.coroutine (.service a)).currContext.status = .ready)
    (slot : isDopostout (s.heap.coroutine (.service a)).func = postOut)
    (function : startOutput p s.heap (s.heap.coroutine (.service a)).func = some k)
    : Upcoming p s a postOut m (produce m k []).1 (produce m k []).2
  | resume (x : UInt8) (k : Cont) (parked : Parked s.heap (.service a) .active (.outStore x k))
    : Upcoming p s a postOut m (produce m k [x]).1 (produce m k [x]).2

/-- The run of a coroutine that was prepared, up to the count of the coroutines started. -/
def NextRun (p : Program) (a : Addr) (postOut : Bool) (m : UInt16) (h : Heap)
    (frame : Option Frame) (bytes : List UInt8)
    : Prop :=
  h.crInStack = some (.service a)
    ∧ (h.coroutine (.service a)).currContext.status ≠ .terminated
    ∧ ∃ starts, runOutput p a postOut m h = some ((frame, bytes), { h with starts })

variable {a : Addr} {postOut : Bool} {m : UInt16} {frame : Option Frame} {bytes : List UInt8}

theorem Upcoming.prepared {s : Server} {h : Heap}
    (upcoming : Upcoming p s a postOut m frame bytes) (prepared : Prepared s.heap h (.service a))
    (frames : ∀ status frame, Parked s.heap (.service a) status frame → h.sharedStack = frame)
    : NextRun p a postOut m h frame bytes := by
  refine ⟨prepared.crInStack, ?_, ?_⟩
  · rw [prepared.status]
    cases upcoming with
    | start k status slot function => simp [status]
    | resume x k parked => simp [parked.status]
  · cases upcoming with
    | start k status slot function =>
        refine ⟨h.starts + 1, ?_⟩
        rw [← prepared.func] at slot
        rw [← prepared.func, ← startOutput_congr p prepared.chars prepared.starts] at function
        simp [runOutput, prepared.status.trans status, slot, function]
    | resume x k parked =>
        refine ⟨h.starts, ?_⟩
        show runOutput p a postOut m h = some (_, h)
        unfold runOutput
        dsimp only
        rw [prepared.status.trans parked.status, frames _ _ parked]

theorem NextRun.still {h h' : Heap} (run : NextRun p a postOut m h frame bytes) (still : Still h h')
    : NextRun p a postOut m h' frame bytes := by
  obtain ⟨inStack, unended, starts, run⟩ := run
  refine ⟨still.crInStack.trans inStack, by rw [still.coroutine]; exact unended, starts, ?_⟩
  generalize result : { h' with starts } = h''
  unfold runOutput at run ⊢
  rw [still.coroutine]
  dsimp only at run ⊢
  split at run
  · split_ifs at run with slot
    rw [Option.bind_eq_bind, Option.bind_eq_some_iff] at run
    obtain ⟨k, function, run⟩ := run
    simp only [Option.some.injEq, Prod.mk.injEq] at run
    obtain ⟨stops, heap⟩ := run
    have count : h.starts + 1 = starts := congrArg Heap.starts heap
    rw [if_pos slot, startOutput_congr p still.chars still.starts, function, Option.bind_eq_bind,
      Option.bind_some, stops, still.starts, count, ← result,
      still.coroutine]
  · split at run
    · rename_i x k shared
      simp only [Option.some.injEq, Prod.mk.injEq] at run
      obtain ⟨stops, heap⟩ := run
      have count : h.starts = starts := congrArg Heap.starts heap
      have same : h'' = h' := by rw [← result, ← count, ← still.starts]
      rw [same, still.sharedStack.trans shared, ← stops]
    · cases run
  · cases run

--------------------------------------------------
-- The generation of a segment
--------------------------------------------------

/-- A generation of a segment that succeeded. -/
structure Generation (i : Nat) (a : Addr) (c : HttpConnection) (frame : Option Frame)
    (bytes : List UInt8) (s s' : Server)
    : Prop where
  exhausted : s'.heap.exhausted = s.heap.exhausted
  rst : s'.rstConnection = s.rstConnection
  ring : RequestChanged i c s s'
  service : ∃ records, s'.service a = { s.service a with inFlightInfos := records }
  output : ∃ buffer, s'.currOutput = { s.currOutput with
    buffer := some buffer
    contentLength := UInt16.ofNat bytes.length
  }
  content : bytes.length < 65536 → currContent s' = bytes
  parked : ∃ f, Parked s'.heap (.service a) (if frame.isNone then .terminated else .active) f
    ∧ ∀ g, frame = some g → f = g

theorem Generation.after {i : Nat} {c : HttpConnection} {s t s' : Server}
    (generation : Generation i a c frame bytes t s') (recorded : Recorded a s t)
    : Generation i a c frame bytes s s' := by
  obtain ⟨records, service⟩ := generation.service
  obtain ⟨_, service'⟩ := recorded.service
  obtain ⟨buffer, output⟩ := generation.output
  exact {
    exhausted := generation.exhausted.trans recorded.heap.exhausted
    rst := generation.rst.trans recorded.rst
    ring := generation.ring.after recorded.connections recorded.sent
    service := ⟨records, by rw [service, service']⟩
    output := ⟨buffer, by rw [output, recorded.currOutput]⟩
    content := generation.content
    parked := generation.parked
  }

theorem Generation.before {i : Nat} {c : HttpConnection} {s t s' : Server}
    (generation : Generation i a c frame bytes s t) (recorded : Recorded a t s')
    : Generation i a c frame bytes s s' := by
  obtain ⟨records, service⟩ := recorded.service
  obtain ⟨_, service'⟩ := generation.service
  obtain ⟨buffer, output⟩ := generation.output
  obtain ⟨f, parked, same⟩ := generation.parked
  obtain ⟨request, ready, ring, sent⟩ := generation.ring
  exact {
    exhausted := recorded.heap.exhausted.trans generation.exhausted
    rst := recorded.rst.trans generation.rst
    ring := ⟨request, ready, recorded.connections.trans ring, recorded.sent.trans sent⟩
    service := ⟨records, by rw [service, service']⟩
    output := ⟨buffer, recorded.currOutput.trans output⟩
    content := fun fits => by
      rw [← generation.content fits, currContent, currContent, recorded.currOutput,
        recorded.heap.chars]
    parked := ⟨f, parked.still recorded.heap, same⟩
  }

/-- The bytes stored at the beginning of a buffer are its contents. -/
theorem currContent_stored {s : Server} {h : Heap} {b : Addr} {bytes : List UInt8}
    (buffer : s.currOutput.buffer = some b)
    (length : s.currOutput.contentLength.toNat = bytes.length)
    (chars : s.heap.chars = (h.storeBytes b bytes).chars)
    : currContent s = bytes := by
  have offsets (n : Nat) : (do let i ← List.range n; pure (i : Int))
      = (List.range n).map fun i : Nat => (i : Int) :=
    List.flatMap_pure_eq_map _ _
  simp only [currContent, buffer, length, chars, offsets]
  apply List.ext_getElem
  · simp
  · intro i hi hi'
    simp [Heap.storeBytes, List.getD_eq_getElem?_getD, List.getElem?_eq_getElem hi']

theorem runGenerator_next {i : Nat} {c : HttpConnection} (buffer : Addr) {s : Server}
    (run : NextRun p a (isPostOut s c) s.currOutput.maxBytes s.heap frame bytes)
    (here : s.http i = some c)
    : ∃ s', runGenerator p i a c buffer s = some (frame.isNone, s')
      ∧ Generation i a c frame bytes s s' := by
  obtain ⟨inStack, -, starts, run⟩ := run
  obtain ⟨s', result, content, exhausted, rst, service, output, parked⟩ : ∃ s',
      runGenerator p i a c buffer s = some (frame.isNone, s')
        ∧ s'.heap.chars = (s.heap.storeBytes buffer bytes).chars
        ∧ s'.heap.exhausted = s.heap.exhausted ∧ s'.rstConnection = s.rstConnection
        ∧ s'.service = s.service
        ∧ s'.currOutput = { s.currOutput with
          buffer := some buffer
          contentLength := UInt16.ofNat bytes.length
        }
        ∧ ∃ f, Parked s'.heap (.service a) (if frame.isNone then .terminated else .active) f
          ∧ ∀ g, frame = some g → f = g := by
    unfold runGenerator
    rw [run, Option.bind_eq_bind, Option.bind_some]
    dsimp only
    cases frame with
    | some f =>
        refine ⟨_, rfl, rfl, rfl, rfl, rfl, rfl, f, ⟨?_, .inl ⟨inStack, rfl⟩⟩, fun g eq => ?_⟩
        · simp [Heap.crSuspend]
        · exact Option.some.inj eq
    | none =>
        have ended (h : Heap) (still : Still (({ s.heap with starts }.storeBytes buffer bytes).crTerminate
            (.service a)) h)
            : Parked h (.service a) .terminated s.heap.sharedStack := by
          refine ⟨?_, .inl ⟨still.crInStack.trans inStack, still.sharedStack⟩⟩
          rw [still.coroutine]
          simp [Heap.crTerminate]
        unfold cleanPostData
        dsimp only
        split
        · exact ⟨_, rfl, rfl, rfl, rfl, rfl, rfl, _, ended _ (.refl _), fun _ eq => nomatch eq⟩
        · rename_i post _
          have freed := Still.memFree (({ s.heap with starts }.storeBytes buffer bytes).crTerminate
            (.service a)) (some post) p.sizeofPostData
          exact ⟨_, rfl, freed.chars, freed.exhausted, rfl, rfl, rfl, _, ended _ freed,
            fun _ eq => nomatch eq⟩
  refine ⟨s', result, {
    exhausted, rst, parked
    ring := runGenerator_ring result here
    service := ⟨_, by rw [service]⟩
    output := ⟨buffer, output⟩
    content := fun fits => ?_
  }⟩
  have length : (UInt16.ofNat bytes.length).toNat = bytes.length := by
    rw [UInt16.toNat_ofNat']
    omega
  refine currContent_stored (b := buffer) (h := s.heap) ?_ ?_ content
  · rw [output]
  · rw [output]
    exact length

/-- The first generation of a segment succeeds. -/
theorem generateNew_next {i : Nat} {c : HttpConnection} {s : Server} (plenty : Plentiful s.heap)
    (run : NextRun p a (isPostOut s c) s.currOutput.maxBytes s.heap frame bytes)
    (here : s.http i = some c)
    : ∃ s', generateNew p i a c s = some (.go frame.isNone s')
      ∧ Generation i a c frame bytes s s' := by
  obtain ⟨heap, alloc, still, -⟩ := memAlloc_plenty plenty p.outputBufferSize
  obtain ⟨addr, t, prepare, recorded⟩ := prepareRecord_plenty (p := p) (s := { s with heap }) a
    c.nextOutseqno s.heap.next (still.plentiful plenty)
  have recorded := (Recorded.of_heap (a := a) still).trans recorded
  have run' : NextRun p a (isPostOut t c) t.currOutput.maxBytes t.heap frame bytes := by
    have same : isPostOut t c = isPostOut s c := by
      simp only [isPostOut, recorded.heap.postData]
    rw [same, recorded.currOutput]
    exact run.still recorded.heap
  obtain ⟨s', generate, generation⟩ := runGenerator_next s.heap.next run'
    ((http_of_connections recorded.connections i).trans here)
  refine ⟨recordBuffer a addr c.nextOutseqno s.heap.next s', ?_, ?_⟩
  · unfold generateNew
    rw [alloc]
    dsimp only
    rw [prepare]
    dsimp only
    rw [generate]
    rfl
  · refine (generation.after recorded).before ?_
    unfold recordBuffer
    dsimp only
    split
    · exact ⟨.refl _, rfl, rfl, rfl, rfl, _, Function.update_self a _ s'.service⟩
    · exact ⟨.refl _, rfl, rfl, rfl, rfl, _, rfl⟩

end Smews.Output
