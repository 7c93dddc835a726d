import Smews.Output.Send
import Smews.System.Steps

/-! What `clean_service` frees when a part of a response is acknowledged.
-/

namespace Smews.System

open Smews.Core Input Output

variable {p : Program}

--------------------------------------------------
-- The property
--------------------------------------------------

/-- The record of a segment, with the place of its bytes in the stream. Places do not wrap; the sequence
number of a place is the place modulo 2^32.
-/
structure SentSegment where
  record : InFlight
  start : Nat
  length : Nat
deriving DecidableEq, Repr

/-- The place behind a segment. -/
def SentSegment.stop (x : SentSegment) : Nat := x.start + x.length

/-- The in-flight list of a service: the newest segment first, each with the record that the service makes, all of
them and the acknowledged place within half of the sequence numbers.
-/
structure NewestFirst (service : GeneratorService) (ack : Nat) (segments : List SentSegment) : Prop where
  records : service.inFlightInfos = segments.map (·.record)
  starts : ∀ x ∈ segments, x.record.nextOutseqno = UInt32.ofNat x.start
  layout : ∀ x ∈ segments, (∃ a, x.record.infos = .buffer a) ↔ service.isPersistent = true
  some_bytes : ∀ x ∈ segments, 0 < x.length
  sorted : segments.Pairwise fun x y => y.stop ≤ x.start
  window : ∀ x ∈ segments, x.start < ack + 0x80000000 ∧ ack < x.start + 0x80000000

/-- The release of a block. `mem_free` does nothing for a null pointer or no bytes. -/
def freeCall (a : Option Addr) (bytes : UInt16) : List MemCall :=
  match a with
  | none => []
  | some a => if bytes = 0 then [] else [.free ⟨a, bytes⟩]

/-- The blocks of a record: its buffer, or its context and stack, and the record itself. -/
def recordCalls (p : Program) (r : InFlight) : List MemCall :=
  (match r.infos with
    | .buffer a => freeCall a p.outputBufferSize
    | .context a context => freeCall context.stack context.stackSize ++ freeCall (some a) p.sizeofContext)
  ++ freeCall (some r.addr) p.sizeofInFlightInfos

/-- The records of exactly the acknowledged segments are freed, each once, and the others are found. -/
structure FreesAcknowledged (p : Program) (s : Server) (a : Addr) (ack : Nat) (segments : List SentSegment)
    : Prop where
  kept : ((s.cleanService p a (some (UInt32.ofNat ack))).service a).inFlightInfos
    = (segments.filter fun x => ack < x.stop).map (·.record)
  freed : (s.cleanService p a (some (UInt32.ofNat ack))).heap.calls
    = s.heap.calls
      ++ (segments.filter fun x => x.stop ≤ ack).flatMap fun x => recordCalls p x.record
  found : ∀ x ∈ segments, ack < x.stop
    → ifSelect ((s.cleanService p a (some (UInt32.ofNat ack))).service a) (UInt32.ofNat x.start)
      = some x.record

/-- A segment with a byte that is not acknowledged begins before the acknowledged place only when the sequence
numbers wrap in between, and the newest one that is wholly acknowledged when they do not.
-/
structure ComparesRight (ack : Nat) (segments : List SentSegment) : Prop where
  unacknowledged : ∀ x ∈ segments, ack < x.stop
    → (x.start < ack ↔ x.start / 0x100000000 ≠ ack / 0x100000000)
  acknowledged : ∀ x ∈ (segments.filter fun x => x.stop ≤ ack).head?,
    x.start / 0x100000000 = ack / 0x100000000

--------------------------------------------------
-- The list
--------------------------------------------------

/-- Where a list is cut, by induction on the part before. -/
theorem takeWhile_append_iff {α : Type} {keep : α → Bool} {before behind : List α}
    : (before ++ behind).takeWhile keep = before
      ↔ (∀ x ∈ before, keep x = true) ∧ ∀ x ∈ behind.head?, keep x = false := by
  induction before with
  | nil =>
      cases behind with
      | nil => simp
      | cons x behind =>
          rw [List.nil_append, List.takeWhile_cons]
          cases kept : keep x <;> simp [kept]
  | cons x before ih =>
      rw [List.cons_append, List.takeWhile_cons, List.forall_mem_cons]
      cases kept : keep x with
      | false => simp
      | true => simpa using ih

/-- The segments that are wholly acknowledged stand behind the others, by induction on the list. -/
theorem acknowledged_behind {ack : Nat} {segments : List SentSegment}
    (some_bytes : ∀ x ∈ segments, 0 < x.length) (sorted : segments.Pairwise fun x y => y.stop ≤ x.start)
    : segments = (segments.filter fun x => ack < x.stop) ++ segments.filter fun x => x.stop ≤ ack := by
  induction segments with
  | nil => rfl
  | cons x segments ih =>
      rw [List.forall_mem_cons] at some_bytes
      rw [List.pairwise_cons] at sorted
      by_cases opened : ack < x.stop
      · rw [List.filter_cons_of_pos (by simpa using opened), List.filter_cons_of_neg (by simpa using opened),
          List.cons_append, ← ih some_bytes.2 sorted.2]
      · have all : ∀ y ∈ x :: segments, y.stop ≤ ack := by
          intro y mem
          rcases List.mem_cons.mp mem with rfl | mem
          · omega
          · have older := sorted.1 y mem
            have stop : x.stop = x.start + x.length := rfl
            omega
        rw [List.filter_eq_nil_iff.mpr (fun y mem => by simpa using all y mem), List.nil_append,
          List.filter_eq_self.mpr (fun y mem => by simpa using all y mem)]

/-- How `clean_service` compares a segment with the acknowledged place. -/
theorem ack_le_iff {x : SentSegment} {ack : Nat} (start : x.record.nextOutseqno = UInt32.ofNat x.start)
    (window : x.start < ack + 0x80000000 ∧ ack < x.start + 0x80000000)
    : UInt32.ofNat ack ≤ x.record.nextOutseqno
      ↔ (x.start < ack ↔ x.start / 0x100000000 ≠ ack / 0x100000000) := by
  rw [start, UInt32.le_iff_toNat_le, UInt32.toNat_ofNat', UInt32.toNat_ofNat']
  simp only [Nat.reducePow]
  omega

/-- A segment is found by its sequence number among segments whose places differ, by induction on the list. -/
theorem find_record {ack : Nat} {segments : List SentSegment} {x : SentSegment}
    (starts : ∀ y ∈ segments, y.record.nextOutseqno = UInt32.ofNat y.start)
    (some_bytes : ∀ y ∈ segments, 0 < y.length) (sorted : segments.Pairwise fun x y => y.stop ≤ x.start)
    (window : ∀ y ∈ segments, y.start < ack + 0x80000000 ∧ ack < y.start + 0x80000000)
    (mem : x ∈ segments)
    : (segments.map (·.record)).find? (fun r => r.nextOutseqno = UInt32.ofNat x.start) = some x.record := by
  induction segments with
  | nil => exact (List.not_mem_nil mem).elim
  | cons y segments ih =>
      rw [List.forall_mem_cons] at starts some_bytes window
      rw [List.pairwise_cons] at sorted
      rw [List.map_cons]
      rcases List.mem_cons.mp mem with rfl | mem
      · rw [List.find?_cons_of_pos (by simpa using starts.1)]
      · have older := sorted.1 x mem
        have stop : x.stop = x.start + x.length := rfl
        have positive := some_bytes.2 x mem
        have near := window.2 x mem
        have other : ¬ y.record.nextOutseqno = UInt32.ofNat x.start := by
          rw [starts.1, ← UInt32.toNat_inj, UInt32.toNat_ofNat', UInt32.toNat_ofNat']
          simp only [Nat.reducePow]
          omega
        rw [List.find?_cons_of_neg (by simpa using other)]
        exact ih starts.2 some_bytes.2 sorted.2 window.2 mem

theorem memFree_calls (h : Heap) (a : Option Addr) (bytes : UInt16)
    : (h.memFree a bytes).calls = h.calls ++ freeCall a bytes := by
  cases a with
  | none => simp [Heap.memFree, freeCall]
  | some a =>
      rw [Heap.memFree, freeCall]
      split
      · rw [List.append_nil]
      · rfl

/-- A record is freed with its blocks when its layout is the one of the service. -/
theorem freeInFlight_calls (h : Heap) {persistent : Bool} {r : InFlight}
    (layout : (∃ a, r.infos = .buffer a) ↔ persistent = true)
    : (h.freeInFlight p persistent r).calls = h.calls ++ recordCalls p r := by
  cases infos : r.infos with
  | buffer a =>
      obtain rfl := layout.mp ⟨a, infos⟩
      simp only [Heap.freeInFlight, recordCalls, infos]
      rw [memFree_calls, memFree_calls, List.append_assoc]
  | context a context =>
      have other : persistent = false := by
        rw [← Bool.not_eq_true, ← layout]
        rintro ⟨b, buffer⟩
        rw [infos] at buffer
        cases buffer
      subst other
      simp only [Heap.freeInFlight, recordCalls, infos]
      rw [memFree_calls, memFree_calls, memFree_calls, List.append_assoc, List.append_assoc,
        List.append_assoc]

/-- The records that are freed, by induction on the list. -/
theorem foldl_freeInFlight_calls (h : Heap) {persistent : Bool} {segments : List SentSegment}
    (layout : ∀ x ∈ segments, (∃ a, x.record.infos = .buffer a) ↔ persistent = true)
    : ((segments.map (·.record)).foldl (fun h r => h.freeInFlight p persistent r) h).calls
      = h.calls ++ segments.flatMap fun x => recordCalls p x.record := by
  induction segments generalizing h with
  | nil => simp
  | cons x segments ih =>
      rw [List.forall_mem_cons] at layout
      rw [List.map_cons, List.foldl_cons, ih _ layout.2, freeInFlight_calls h layout.1, List.flatMap_cons,
        List.append_assoc]

--------------------------------------------------
-- clean_service
--------------------------------------------------

/-- The records that `clean_service` keeps. -/
theorem cleanService_kept (s : Server) (a : Addr) (ack : UInt32)
    : ((s.cleanService p a (some ack)).service a).inFlightInfos
      = (s.service a).inFlightInfos.takeWhile fun r => ack ≤ r.nextOutseqno := by
  simp [Server.cleanService, Server.setService]

/-- `clean_service` frees exactly the acknowledged segments when it compares their sequence numbers right, and
only then.
-/
theorem acknowledged_freed (s : Server) (a : Addr) (ack : Nat) (segments : List SentSegment)
    (newest : NewestFirst (s.service a) ack segments)
    : FreesAcknowledged p s a ack segments ↔ ComparesRight ack segments := by
  have split : segments
      = (segments.filter fun x => ack < x.stop) ++ segments.filter fun x => x.stop ≤ ack :=
    acknowledged_behind newest.some_bytes newest.sorted
  have listed : (s.service a).inFlightInfos
      = (segments.filter fun x => ack < x.stop).map (·.record)
        ++ (segments.filter fun x => x.stop ≤ ack).map (·.record) := by
    rw [newest.records, ← List.map_append, ← split]
  have cut : ((s.cleanService p a (some (UInt32.ofNat ack))).service a).inFlightInfos
        = (segments.filter fun x => ack < x.stop).map (·.record)
      ↔ ComparesRight ack segments := by
    rw [cleanService_kept, listed, takeWhile_append_iff, List.forall_mem_map, List.head?_map]
    have compare : ∀ x ∈ segments, UInt32.ofNat ack ≤ x.record.nextOutseqno
        ↔ (x.start < ack ↔ x.start / 0x100000000 ≠ ack / 0x100000000) :=
      fun x mem => ack_le_iff (newest.starts x mem) (newest.window x mem)
    constructor
    · rintro ⟨kept, freed⟩
      refine ⟨fun x mem opened => ?_, fun x first => ?_⟩
      · rw [← compare x mem]
        simpa using kept x (List.mem_filter.mpr ⟨mem, by simpa using opened⟩)
      · have mem := List.mem_filter.mp (List.mem_of_mem_head? first)
        have positive := newest.some_bytes x mem.1
        have closed : x.stop ≤ ack := by simpa using mem.2
        have stop : x.stop = x.start + x.length := rfl
        have below := freed x.record (Option.mem_map_of_mem _ first)
        rw [decide_eq_false_iff_not, compare x mem.1] at below
        by_contra differ
        exact below ⟨fun _ => differ, fun _ => by omega⟩
    · rintro ⟨unacknowledged, acknowledged⟩
      refine ⟨fun x mem => ?_, fun r first => ?_⟩
      · obtain ⟨mem, opened⟩ := List.mem_filter.mp mem
        rw [decide_eq_true_iff, compare x mem]
        exact unacknowledged x mem (by simpa using opened)
      · obtain ⟨x, head, rfl⟩ := Option.mem_map.mp first
        have mem := List.mem_filter.mp (List.mem_of_mem_head? head)
        have positive := newest.some_bytes x mem.1
        have closed : x.stop ≤ ack := by simpa using mem.2
        have stop : x.stop = x.start + x.length := rfl
        rw [decide_eq_false_iff_not, compare x mem.1]
        exact fun same => same.mp (by omega) (acknowledged x head)
  refine ⟨fun frees => cut.mp frees.kept, fun compares => ?_⟩
  have kept := cut.mpr compares
  refine ⟨kept, ?_, fun x mem opened => ?_⟩
  · rw [cleanService_kept] at kept
    rw [Server.cleanService]
    dsimp only
    rw [kept, listed, List.drop_left]
    exact foldl_freeInFlight_calls s.heap fun x mem => newest.layout x (List.mem_of_mem_filter mem)
  · rw [ifSelect, kept]
    have filtered {P : SentSegment → Prop} (all : ∀ y ∈ segments, P y)
        : ∀ y ∈ segments.filter (fun x => ack < x.stop), P y :=
      fun y mem => all y (List.mem_of_mem_filter mem)
    exact find_record (filtered newest.starts) (filtered newest.some_bytes) (newest.sorted.filter _)
      (filtered newest.window) (List.mem_filter.mpr ⟨mem, by simpa using opened⟩)

/-- Two persistent segments of 100 and 50 bytes, the newest first. -/
def twoSegments : List SentSegment :=
  [
    ⟨⟨11, 1100, .buffer (some 12), .none⟩, 1100, 50⟩,
    ⟨⟨9, 1000, .buffer (some 10), .chunks⟩, 1000, 100⟩
  ]

/-- A server where the two segments are in flight. -/
def twoInFlight : Server :=
  bootServer.setService 7 ⟨1150, twoSegments.map (·.record), .none, true⟩

/-- The first of the two segments is acknowledged. -/
theorem acknowledged_freed_first
    : FreesAcknowledged (oneGenerator hello noArgs) twoInFlight 7 1100 twoSegments := by
  refine (acknowledged_freed twoInFlight 7 1100 twoSegments ⟨rfl, ?_, ?_, ?_, ?_, ?_⟩).mpr ⟨?_, ?_⟩
  · decide
  · simp [twoSegments, twoInFlight, Server.setService]
  · decide
  · decide
  · decide
  · decide
  · decide

/-- An acknowledgement inside the second segment frees its record too. -/
theorem acknowledged_freed_fails_inside
    : ¬ FreesAcknowledged (oneGenerator hello noArgs) twoInFlight 7 1110 twoSegments := by
  intro frees
  have found := frees.found ⟨⟨11, 1100, .buffer (some 12), .none⟩, 1100, 50⟩ (by decide) (by decide)
  revert found
  decide

end Smews.System
