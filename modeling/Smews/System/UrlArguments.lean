import Smews.Input.Allocations
import Smews.Input.Arguments
import Smews.System.UrlRouting

/-! The arguments in the query string of an URL are decoded to the block of the generator. The first byte of a value
is read at the reference of its argument, where `=`, `?` and the space have another meaning.
-/

namespace Smews.System

open Smews.Core Smews.Input Smews.Tools

--------------------------------------------------
-- Queries
--------------------------------------------------

/-- `name=value&…&name=value`. -/
def queryBytes (query : Values) : List UInt8 := [38].intercalate (query.map fun e => e.1.name ++ 61 :: e.2)

/-- A query of declared arguments, each at most once. -/
structure IsQuery (declared : List Argument) (query : Values) : Prop where
  nonempty : query ≠ []
  declared : ∀ e ∈ query, e.1 ∈ declared
  once : (query.map Prod.fst).Nodup
  digits : ∀ e ∈ query, e.1.ref.argType ≠ .str → ∀ c ∈ e.2, 48 ≤ c ∧ c ≤ 57
  inner : ∀ e ∈ query, ∀ c ∈ e.2, c ≠ 38 ∧ c ≠ 32

/-- What is decoded of a value: at the reference of the argument, each `=` begins the value anew. -/
def decodedValue (v : List UInt8) : List UInt8 := v.dropWhile (· = 61)

def decodedQuery (query : Values) : Values := query.map fun e => (e.1, decodedValue e.2)

/-- No value begins the arguments anew, and one of the last value's bytes is decoded. -/
structure Readable (query : Values) : Prop where
  begins : ∀ e ∈ query, (decodedValue e.2).head? ≠ some 63
  ends : ∀ e ∈ query.getLast?, decodedValue e.2 ≠ []

/-- A query is decoded to a block. -/
structure Decoded (r : Nat) (a : Addr) (calls : List MemCall) (declared : List Argument) (query : Values) (s : Parse)
    : Prop where
  ready : s.request.readyToSend = true
  ended : s.request.parsingState = .ended
  selected : s.outputHandler = some (.resource r)
  block : s.request.args = .block a
  calls : s.heap.calls = calls
  holds : ∀ e ∈ query, e.1.Holds e.2 (s.heap.chars a)
  clear : ∀ x ∈ declared, x ∉ query.map Prod.fst → x.IsZero (s.heap.chars a)

/-- A run that ends with an error page, without an answer, or with more calls of the allocator. -/
def Spoiled (calls : List MemCall) (parsed : Option Parsed) : Prop :=
  ∀ s rest, parsed = some (.done s rest) →
    s.outputHandler = some .http404 ∨ s.request.readyToSend = false ∨ calls.length < s.heap.calls.length

section Values

variable {c : UInt8} {v : List UInt8}

theorem decodedValue_equals (v : List UInt8) : decodedValue (61 :: v) = decodedValue v := by
  rw [decodedValue, List.dropWhile_cons_of_pos (by decide), decodedValue]

theorem decodedValue_other (other : c ≠ 61) (v : List UInt8) : decodedValue (c :: v) = c :: v := by
  rw [decodedValue, List.dropWhile_cons_of_neg (by simpa using other)]

theorem mem_of_decoded (mem : c ∈ decodedValue v) : c ∈ v := List.dropWhile_subset _ mem

/-- A value that is decoded does not begin with `=`. -/
theorem decodedValue_begins {w : List UInt8} (same : decodedValue v = c :: w) : c ≠ 61 := by
  have head := List.head?_dropWhile_not (fun c : UInt8 => decide (c = 61)) v
  rw [← decodedValue, same] at head
  simpa using head

end Values

theorem queryBytes_cons (e e' : Argument × List UInt8) (query : Values)
    : queryBytes (e :: e' :: query) = e.1.name ++ 61 :: (e.2 ++ 38 :: queryBytes (e' :: query)) := by
  simp [queryBytes, List.intercalate]

theorem queryBytes_singleton (e : Argument × List UInt8) : queryBytes [e] = e.1.name ++ 61 :: e.2 := by
  simp [queryBytes, List.intercalate]

--------------------------------------------------
-- The beginning of the arguments
--------------------------------------------------

/-- The parser at the beginning of the arguments of a resource. -/
def begun (p : Program) (r : Nat) (s : Parse) : Parse :=
  let args := (p.resource r).args
  let a := s.heap.next
  { s with
    request := { s.request with readyToSend := false, args := .block a }
    heap := { (s.heap.memAlloc args.argsSize).2 with
      chars := Function.update s.heap.chars a fun i =>
        if 0 ≤ i ∧ i < args.argsSize.toNat then 0 else s.heap.chars a i
    }
    outputHandler := some (.resource r)
    argsSizeRef := args.argsSize
    blob := args.argsTree
  }

section Beginning

variable {p : Program} {s : Parse} {r : Nat} {a : Addr} {calls : List MemCall} {declared : List Argument} {b : UInt8}
  (rest : List UInt8)

/-- A generator with arguments has a block for them. -/
theorem some_size (declares : Declares (p.resource r).args declared) : (p.resource r).args.argsSize ≠ 0 := by
  obtain ⟨x, mem⟩ := List.exists_mem_of_ne_nil _ declares.inhabited
  have inside := declares.inside x mem
  have sized := declares.sized x mem
  intro none
  rw [none, UInt16.toNat_zero] at inside
  unfold Argument.Sized at sized
  cases type : x.ref.argType <;> rw [type] at sized <;> dsimp only at sized <;> omega

theorem handler_resource (p : Program) (r : Nat) : p.handler (.resource r) = p.resource r := rfl

variable (declares : Declares (p.resource r).args declared) (state : s.request.parsingState = .url)
  (no_boundary : s.boundary = none) (curr : s.blob.head? = some b) (high : 128 ≤ b) (no_mark : b ≠ 255)
  (selects : selectResource p b s = some (.resource r))

include declares state no_boundary curr high no_mark selects

/-- The block of the arguments is allocated and cleared. -/
theorem args_begun (room : s.heap.exhausted s.heap.next = false)
    : parseTurn p s (63 :: rest) = some (.again (begun p r s), rest) := by
  have stage : resourceOrArgument p 63 b s = some (.again (begun p r s)) := by
    rw [resourceOrArgument, if_neg (by decide), if_pos (.inl rfl), beginArgs, selects, Option.bind_eq_bind,
      Option.bind_some, handler_resource]
    dsimp only
    rw [if_neg (some_size declares)]
    simp only [begun, Heap.memAlloc, room, Bool.false_eq_true, if_false]
  rw [parseTurn_url state no_boundary curr, url_at_reference state high no_mark, stage]
  rfl

/-- Without memory the request is answered with 404. -/
theorem args_refused (full : s.heap.exhausted s.heap.next = true)
    : ∃ s', parseTurn p s (63 :: rest) = some (.leave s', rest) ∧ s'.outputHandler = some .http404 := by
  have stage : ∃ s', resourceOrArgument p 63 b s = some (.leave s') ∧ s'.outputHandler = some .http404 := by
    rw [resourceOrArgument, if_neg (by decide), if_pos (.inl rfl), beginArgs, selects, Option.bind_eq_bind,
      Option.bind_some, handler_resource]
    dsimp only
    rw [if_neg (some_size declares)]
    simp only [Heap.memAlloc, full, if_true]
    exact ⟨_, rfl, rfl⟩
  obtain ⟨s', left, refused⟩ := stage
  refine ⟨s', ?_, refused⟩
  rw [parseTurn_url state no_boundary curr, url_at_reference state high no_mark, left]
  rfl

end Beginning

--------------------------------------------------
-- Runs
--------------------------------------------------

section Runs

variable {p : Program} {s : Parse} {r : Nat} {a : Addr} {calls : List MemCall} {declared : List Argument}
  {values : Values} {x : Argument} {v : List UInt8} {i : Nat} (rest : List UInt8)
  (fuel : Nat)

/-- No call of the allocator is undone. -/
theorem spoiled_calls (more : calls.length < s.heap.calls.length) : Spoiled calls (parseLoop p fuel s rest) := by
  have kept : AllocatorInv fun h => calls.length < h.calls.length := {
    memAlloc := fun n lt => by
      unfold Heap.memAlloc
      split <;> exact Nat.lt_of_lt_of_le lt (by simp)
    memFree := fun a n lt => by
      unfold Heap.memFree
      split
      · exact lt
      · split
        · exact lt
        · exact Nat.lt_of_lt_of_le lt (by simp)
    congr := fun lt _ same => by
      rw [same]
      exact lt
  }
  intro s' rest' done
  exact .inr (.inr (parseLoop_keeps kept more fuel rest _ done))

/-- The byte `?` at the beginning of a value begins the arguments anew. -/
theorem spoiled_again (declares : Declares (p.resource r).args declared) (query : InQuery p r a calls s)
    (here : declared[i]? = some x) (at_start : AtStart i s)
    : Spoiled calls (parseLoop p (fuel + 1) s (63 :: rest)) := by
  have small : i < 127 := Nat.lt_of_lt_of_le (List.getElem?_eq_some_iff.mp here).1 declares.few
  obtain ⟨b, more, blob, -⟩ := at_start
  have curr : s.blob.head? = some (128 + UInt8.ofNat i) := by rw [blob]; rfl
  have selects : selectResource p (128 + UInt8.ofNat i) s = some (.resource r) := by
    rw [selectResource, query.selected]
  rw [parseLoop_turns query.unfailed]
  cases room : s.heap.exhausted s.heap.next with
  | false =>
      rw [args_begun _ declares query.state query.no_boundary curr (ref_high (by omega)) (index_small small).1 selects
        room]
      refine spoiled_calls _ _ ?_
      simp [begun, Heap.memAlloc, room, query.calls]
  | true =>
      obtain ⟨s', left, refused⟩ := args_refused rest declares query.state query.no_boundary curr
        (ref_high (by omega)) (index_small small).1 selects room
      rw [left]
      rintro _ _ ⟨⟩
      exact .inl refused

/-- The space behind a value of which nothing was decoded ends the URL of another request. -/
theorem spoiled_space (query : InQuery p r a calls s) (at_start : AtStart i s) (small : i < 127)
    : Spoiled calls (parseLoop p (fuel + 1) s (32 :: rest)) := by
  obtain ⟨b, more, blob, -⟩ := at_start
  have curr : s.blob.head? = some (128 + UInt8.ofNat i) := by rw [blob]; rfl
  rw [parseLoop_turns query.unfailed, query.turn _ curr, url_at_reference query.state (ref_high (by omega))
    (index_small small).1, resourceOrArgument, if_pos rfl, urlSpace]
  cases posted : s.request.postData with
  | some pd =>
      rw [query.unmarked, if_pos ⟨rfl, Bool.false_ne_true⟩]
      rintro _ _ ⟨⟩
      exact .inl rfl
  | none =>
      rw [if_neg (by simp), selectResource, query.selected]
      simp only [Option.bind_eq_bind, Option.bind_some, posted, Option.isSome_none, Bool.false_eq_true, if_false,
        Flow.andThen]
      rintro _ _ ⟨⟩
      exact .inr (.inl query.not_ready)

/-- The bytes `=` at the beginning of a value are read at the reference of its argument, by induction on the value. -/
theorem value_begun (declares : Declares (p.resource r).args declared) (here : declared[i]? = some x)
    (unread : x ∉ values.map Prod.fst) (at_start : AtStart i s) (value : InValue p r a calls declared values x i [] s)
    (v : List UInt8)
    : ∃ s', parseLoop p (v.length + fuel) s (v ++ rest)
        = parseLoop p ((decodedValue v).length + fuel) s' (decodedValue v ++ rest)
      ∧ AtStart i s' ∧ InValue p r a calls declared values x i [] s' := by
  induction v generalizing s with
  | nil => exact ⟨s, rfl, at_start, value⟩
  | cons c v ih =>
      by_cases equals : c = 61
      · subst equals
        obtain ⟨t, turned, at_start, value'⟩ := equals_read (v ++ rest) declares value.query here unread
          at_start value.contents fun e same => by cases same; rfl
        obtain ⟨s', looped, begun⟩ := ih at_start value'
        refine ⟨s', ?_, begun⟩
        rw [decodedValue_equals, ← looped, List.length_cons, Nat.add_right_comm, List.cons_append,
          parseLoop_turns value.query.unfailed, turned]
      · rw [decodedValue_other equals]
        exact ⟨s, rfl, at_start, value⟩

/-- A name is read, and the beginning of its value. -/
theorem entry_begun (declares : Declares (p.resource r).args declared) (query : InQuery p r a calls s)
    (no_value : s.request.argRefIndex = 128) (blob : s.blob = (p.resource r).args.argsTree)
    (contents : Contents declared values none (s.heap.chars a)) (mem : x ∈ declared) (unread : x ∉ values.map Prod.fst)
    (clear : (Place.tree (genTree (declared.map Argument.name))).ClearAlong true x.name) (v : List UInt8)
    : ∃ s' i, parseLoop p (x.name.length + 1 + v.length + fuel) s (x.name ++ 61 :: (v ++ rest))
        = parseLoop p ((decodedValue v).length + fuel) s' (decodedValue v ++ rest)
      ∧ declared[i]? = some x ∧ AtStart i s' ∧ InValue p r a calls declared values x i [] s' := by
  obtain ⟨i, here⟩ := List.mem_iff_getElem?.mp mem
  have is_table := declares.is_table
  obtain ⟨walkable, present⟩ := is_table.walkable
  obtain ⟨shaped, entries, -⟩ := genTree_compacted is_table.accepted is_table.inhabited
  have named (c : UInt8) (char : c ∈ x.name) := declares.named x mem c char
  have low (e : Entry) (word : e ∈ (Place.tree (genTree (declared.map Argument.name))).entries) : e.2 < 127 := by
    rw [Place.entries, entries, mem_sortedSymbols] at word
    have lt := (List.getElem?_eq_some_iff.mp word).1
    rw [List.length_map] at lt
    exact Nat.lt_of_lt_of_le lt declares.few
  obtain ⟨inf, eq, sup, found, b, more, behind, small⟩ := declares.found here
  obtain ⟨tail, looped⟩ := name_read (p := p) (61 :: (v ++ rest)) (v.length + fuel + 1) query no_value
    (.tree walkable present) (.tree shaped) low clear
    (fun c char => ⟨fun space => absurd (space ▸ (named c char).1.1) (by decide), (named c char).2.2.1⟩)
    (blob.trans (declares.tree.trans (List.append_nil _).symm)) found
  have named_query := query.elsewhere s.request.argRefIndex s.request.currArg s.heap.chars
    ((Place.ref i inf eq sup).bytes ++ tail)
  have at_start : AtStart i { s with blob := (Place.ref i inf eq sup).bytes ++ tail } := by
    refine ⟨b, more ++ tail, ?_, small⟩
    rw [Place.bytes, behind]
    rfl
  obtain ⟨t, equals, at_start, value⟩ := equals_read (v ++ rest) declares named_query here unread at_start
    contents fun e same => by cases same
  obtain ⟨s', begun, begins⟩ := value_begun rest fuel declares here unread at_start value v
  refine ⟨s', i, ?_, here, begins⟩
  rw [← begun, show x.name.length + 1 + v.length + fuel = x.name.length + (v.length + fuel + 1) by omega, looped,
    parseLoop_turns named_query.unfailed, equals]

/-- A value is read from its first byte. -/
theorem value_read {w : List UInt8} (declares : Declares (p.resource r).args declared) (here : declared[i]? = some x)
    (unread : x ∉ values.map Prod.fst) (at_start : AtStart i s) (value : InValue p r a calls declared values x i [] s)
    (begins : ∀ c ∈ w.head?, c ≠ 61 ∧ c ≠ 63) (inner : ∀ c ∈ w, c ≠ 38 ∧ c ≠ 32)
    (digits : x.ref.argType ≠ .str → ∀ c ∈ w, 48 ≤ c)
    : ∃ s', parseLoop p (w.length + fuel) s (w ++ rest) = parseLoop p fuel s' rest
      ∧ (if w = [] then AtStart i s' else BehindStart s') ∧ InValue p r a calls declared values x i w s' := by
  cases w with
  | nil =>
      refine ⟨s, ?_, at_start, value⟩
      rw [List.length_nil, Nat.zero_add, List.nil_append]
  | cons c w =>
      obtain ⟨no_equals, no_args⟩ := begins c rfl
      obtain ⟨t, first, behind, value'⟩ := value_byte (w ++ rest) declares value here unread
        (.inl ⟨at_start, no_equals, no_args⟩) (inner c List.mem_cons_self)
        fun number => digits number c List.mem_cons_self
      obtain ⟨s', others, behind, value''⟩ := value_rest rest fuel declares value' here unread
        behind (fun d char => inner d (List.mem_cons_of_mem c char))
        fun number d char => digits number d (List.mem_cons_of_mem c char)
      refine ⟨s', ?_, behind, value''⟩
      rw [List.length_cons, Nat.add_right_comm, List.cons_append, parseLoop_turns value.query.unfailed, first]
      exact others

section Entries

variable {query : Values} {e : Argument × List UInt8} (declares : Declares (p.resource r).args declared)
  (is_query : IsQuery declared query) (mem : e ∈ query)
  (clear : (Place.tree (genTree (declared.map Argument.name))).ClearAlong true e.1.name)
  (unread : e.1 ∉ values.map Prod.fst) (in_query : InQuery p r a calls s) (no_value : s.request.argRefIndex = 128)
  (blob : s.blob = (p.resource r).args.argsTree) (contents : Contents declared values none (s.heap.chars a))

include declares is_query mem clear unread in_query no_value blob contents

/-- A name and its value are read. -/
theorem entry_read (begins : (decodedValue e.2).head? ≠ some 63)
    : ∃ s' i, parseLoop p (e.1.name.length + 1 + e.2.length + fuel) s (e.1.name ++ 61 :: (e.2 ++ rest))
        = parseLoop p fuel s' rest
      ∧ declared[i]? = some e.1 ∧ (if decodedValue e.2 = [] then AtStart i s' else BehindStart s')
      ∧ InValue p r a calls declared values e.1 i (decodedValue e.2) s' := by
  obtain ⟨t, i, begun, here, at_start, value⟩ := entry_begun rest fuel declares in_query no_value
    blob contents (is_query.declared e mem) unread clear e.2
  have first (c : UInt8) (head : c ∈ (decodedValue e.2).head?) : c ≠ 61 ∧ c ≠ 63 := by
    obtain ⟨w, same⟩ := List.head?_eq_some_iff.mp head
    exact ⟨decodedValue_begins same, fun args => begins (args ▸ head)⟩
  obtain ⟨s', read, place, value⟩ := value_read rest fuel declares here unread at_start value first
    (fun c char => is_query.inner e mem c (mem_of_decoded char))
    fun number c char => (is_query.digits e mem number c (mem_of_decoded char)).1
  exact ⟨s', i, begun.trans read, here, place, value⟩

/-- A value begins the arguments anew. -/
theorem entry_spoiled (begins : (decodedValue e.2).head? = some 63)
    : Spoiled calls (parseLoop p (e.1.name.length + 1 + e.2.length + fuel) s (e.1.name ++ 61 :: (e.2 ++ rest))) := by
  obtain ⟨t, i, begun, here, at_start, value⟩ := entry_begun rest fuel declares in_query no_value
    blob contents (is_query.declared e mem) unread clear e.2
  obtain ⟨w, same⟩ := List.head?_eq_some_iff.mp begins
  rw [begun, same, List.length_cons, Nat.add_right_comm, List.cons_append]
  exact spoiled_again _ _ declares value.query here at_start

end Entries

theorem IsQuery.tail {e e' : Argument × List UInt8} {query : Values} (is_query : IsQuery declared (e :: e' :: query))
    : IsQuery declared (e' :: query) where
  nonempty := List.cons_ne_nil e' query
  declared := fun d mem => is_query.declared d (List.mem_cons_of_mem e mem)
  once := (List.nodup_cons.mp is_query.once).2
  digits := fun d mem => is_query.digits d (List.mem_cons_of_mem e mem)
  inner := fun d mem => is_query.inner d (List.mem_cons_of_mem e mem)

theorem readable_singleton {e : Argument × List UInt8}
    : Readable [e] ↔ (decodedValue e.2).head? ≠ some 63 ∧ decodedValue e.2 ≠ [] := by
  refine ⟨fun readable => ⟨readable.begins e (List.mem_singleton_self e), readable.ends e rfl⟩, ?_⟩
  rintro ⟨begins, ends⟩
  refine ⟨fun d mem => ?_, fun d last => ?_⟩
  · rw [List.mem_singleton.mp mem]
    exact begins
  · cases last
    exact ends

theorem readable_cons {e e' : Argument × List UInt8} {query : Values}
    : Readable (e :: e' :: query) ↔ (decodedValue e.2).head? ≠ some 63 ∧ Readable (e' :: query) := by
  constructor
  · intro readable
    refine ⟨readable.begins e List.mem_cons_self, fun d mem => ?_, fun d last => ?_⟩
    · exact readable.begins d (List.mem_cons_of_mem e mem)
    · exact readable.ends d (by rw [List.getLast?_cons_cons]; exact last)
  · rintro ⟨begins, readable⟩
    refine ⟨fun d mem => ?_, fun d last => ?_⟩
    · rcases List.mem_cons.mp mem with rfl | mem
      · exact begins
      · exact readable.begins d mem
    · rw [List.getLast?_cons_cons] at last
      exact readable.ends d last

/-- The query ends behind a byte of a value. -/
theorem decoded_last (value : InValue p r a calls declared values x i v s) (mem : x ∈ declared)
    : Decoded r a calls declared (values ++ [(x, v)])
      { s with request := { s.request with readyToSend := true, parsingState := .ended } } := by
  have contents := value.contents.ended mem
  exact ⟨rfl, rfl, value.query.selected, value.query.block, value.query.calls, contents.held,
    fun y mem unread => contents.others y mem unread fun e none => by cases none⟩

/-- The values of a query are decoded one after the other, by induction on it. -/
theorem query_run {query : Values} (declares : Declares (p.resource r).args declared)
    (is_query : IsQuery declared query)
    (clear : ∀ e ∈ query, (Place.tree (genTree (declared.map Argument.name))).ClearAlong true e.1.name)
    (unread : ∀ e ∈ query, e.1 ∉ values.map Prod.fst) (in_query : InQuery p r a calls s)
    (no_value : s.request.argRefIndex = 128) (blob : s.blob = (p.resource r).args.argsTree)
    (contents : Contents declared values none (s.heap.chars a))
    : let parsed := parseLoop p ((queryBytes query).length + 1 + fuel) s (queryBytes query ++ 32 :: rest)
      (Readable query →
        ∃ s', parsed = some (.done s' rest) ∧ Decoded r a calls declared (values ++ decodedQuery query) s')
      ∧ (¬ Readable query → Spoiled calls parsed) := by
  induction query generalizing s values with
  | nil => exact absurd rfl is_query.nonempty
  | cons e query ih =>
      have spoils (rest : List UInt8) (fuel : Nat) := entry_spoiled rest fuel declares is_query
        List.mem_cons_self (clear e List.mem_cons_self) (unread e List.mem_cons_self) in_query no_value blob contents
      have reads (rest : List UInt8) (fuel : Nat) := entry_read rest fuel declares is_query
        List.mem_cons_self (clear e List.mem_cons_self) (unread e List.mem_cons_self) in_query no_value blob contents
      have mem := is_query.declared e List.mem_cons_self
      dsimp only
      cases query with
      | nil =>
          have bytes : queryBytes [e] ++ 32 :: rest = e.1.name ++ 61 :: (e.2 ++ 32 :: rest) := by
            simp [queryBytes_singleton]
          have length : (queryBytes [e]).length + 1 + fuel = e.1.name.length + 1 + e.2.length + (fuel + 1) := by
            rw [queryBytes_singleton, List.length_append, List.length_cons]
            omega
          rw [readable_singleton, bytes, length]
          by_cases begins : (decodedValue e.2).head? = some 63
          · exact ⟨fun readable => absurd begins readable.1, fun _ => spoils _ _ begins⟩
          obtain ⟨t, i, read, here, place, value⟩ := reads (32 :: rest) (fuel + 1) begins
          rw [read]
          by_cases empty : decodedValue e.2 = []
          · rw [if_pos empty] at place
            have small := Nat.lt_of_lt_of_le (List.getElem?_eq_some_iff.mp here).1 declares.few
            exact ⟨fun readable => absurd empty readable.2, fun _ => spoiled_space _ _ value.query place small⟩
          · rw [if_neg empty] at place
            refine ⟨fun _ => ⟨_, ?_, decoded_last value mem⟩, fun unreadable => absurd ⟨begins, empty⟩ unreadable⟩
            rw [parseLoop_turns value.query.unfailed, value_last _ declares value here place]
      | cons e' query =>
          have bytes : queryBytes (e :: e' :: query) ++ 32 :: rest
              = e.1.name ++ 61 :: (e.2 ++ 38 :: (queryBytes (e' :: query) ++ 32 :: rest)) := by
            simp [queryBytes_cons]
          have length : (queryBytes (e :: e' :: query)).length + 1 + fuel
              = e.1.name.length + 1 + e.2.length + ((queryBytes (e' :: query)).length + 1 + fuel + 1) := by
            rw [queryBytes_cons, List.length_append, List.length_cons, List.length_append, List.length_cons]
            omega
          rw [readable_cons, bytes, length]
          by_cases begins : (decodedValue e.2).head? = some 63
          · exact ⟨fun readable => absurd begins readable.1, fun _ => spoils _ _ begins⟩
          obtain ⟨t, i, read, here, place, value⟩ := reads (38 :: (queryBytes (e' :: query) ++ 32 :: rest))
            ((queryBytes (e' :: query)).length + 1 + fuel + 1) begins
          have either : AtStart i t ∨ BehindStart t := by
            split at place
            · exact .inl place
            · exact .inr place
          obtain ⟨t', next, in_query, no_value, blob, contents⟩ :=
            value_next (queryBytes (e' :: query) ++ 32 :: rest) declares value here either
          have unread' (d : Argument × List UInt8) (mem : d ∈ e' :: query)
              : d.1 ∉ (values ++ [(e.1, decodedValue e.2)]).map Prod.fst := by
            rw [List.map_append, List.mem_append, not_or]
            refine ⟨unread d (List.mem_cons_of_mem e mem), fun same => ?_⟩
            rw [List.map_singleton, List.mem_singleton] at same
            exact (List.nodup_cons.mp is_query.once).1 (same ▸ List.mem_map_of_mem mem)
          obtain ⟨decodes, spoiled⟩ := ih is_query.tail (fun d mem => clear d (List.mem_cons_of_mem e mem)) unread'
            in_query no_value blob contents
          rw [List.append_assoc, List.singleton_append] at decodes
          rw [read, parseLoop_turns value.query.unfailed, next]
          exact ⟨fun readable => decodes readable.2,
            fun unreadable => spoiled fun readable => unreadable ⟨begins, readable⟩⟩

end Runs

--------------------------------------------------
-- Decoding
--------------------------------------------------

/-- The parser behind the URL of a resource. -/
structure AtResource (p : Program) (r : Nat) (s : Parse) : Prop where
  at_url : AtUrl s
  curr : s.blob.head? = some (128 + UInt8.ofNat r)
  small : r < 127
  resource : p.resourcesIndex (UInt8.ofNat r) = some (.resource r)
  tcp : p.isGpIp (.resource r) = false

/-- A query and the space behind it are read: its values are decoded to a block, the only one that is allocated. -/
def DecodesQuery (p : Program) (r : Nat) (declared : List Argument) (query : Values) (fuel : Nat) (s : Parse)
    (rest : List UInt8)
    : Prop :=
  ∃ s', parseLoop p fuel s (63 :: (queryBytes query ++ 32 :: rest)) = some (.done s' rest)
    ∧ Decoded r s.heap.next (s.heap.calls ++ [.alloc ⟨s.heap.next, (p.resource r).args.argsSize⟩]) declared query s'

/-- A query that is read as it is written: moreover, a string begins with `=` only where no byte of it is kept. -/
structure Legible (query : Values) : Prop extends Readable query where
  whole : ∀ e ∈ query, e.2.head? = some 61 → e.1.size = 1

section Decoding

variable {p : Program} {s : Parse} {r : Nat} {declared : List Argument} {query : Values} {x : Argument}
  {v rest : List UInt8} {chars : Int → UInt8}

/-- What the field of a decoded value says of the whole one. -/
theorem holds_decoded (sized : x.Sized) (digits : x.ref.argType ≠ .str → ∀ c ∈ v, 48 ≤ c ∧ c ≤ 57)
    (holds : x.Holds (decodedValue v) chars)
    : x.Holds v chars ↔ (v.head? = some 61 → x.size = 1) := by
  by_cases equals : v.head? = some 61
  · obtain ⟨w, rfl⟩ := List.head?_eq_some_iff.mp equals
    have string : x.ref.argType = .str := by
      by_contra number
      exact absurd (digits number 61 List.mem_cons_self).2 (by decide)
    unfold Argument.Sized at sized
    unfold Argument.Holds at *
    rw [string] at sized holds ⊢
    dsimp only at sized holds ⊢
    rw [imp_iff_right equals]
    obtain ⟨stored, ended⟩ := holds
    refine ⟨fun whole => ?_, fun single => ?_⟩
    · by_contra several
      obtain ⟨room, size⟩ : ∃ room, x.size - 1 = room + 1 := ⟨x.size - 2, by omega⟩
      rw [size] at stored ended whole
      have first := whole.1 0 61 (by rw [List.take_succ_cons]; rfl)
      cases same : decodedValue (61 :: w) with
      | nil =>
          rw [same, List.take_nil, List.length_nil, first] at ended
          cases ended
      | cons c w' =>
          rw [same, List.take_succ_cons] at stored
          exact decodedValue_begins same ((stored 0 c rfl).symm.trans first)
    · rw [single] at stored ended ⊢
      exact ⟨stored, ended⟩
  · have same : decodedValue v = v := by
      cases v with
      | nil => rfl
      | cons c v => exact decodedValue_other (fun eq => equals (eq ▸ rfl)) v
    rw [same] at holds
    exact iff_of_true holds fun head => absurd head equals

theorem decodedQuery_fst (query : Values) : (decodedQuery query).map Prod.fst = query.map Prod.fst := by
  rw [decodedQuery, List.map_map]
  rfl

/-- The decoded values are the whole ones where a query is legible. -/
theorem decoded_iff {a : Addr} {calls : List MemCall} (declares : Declares (p.resource r).args declared)
    (is_query : IsQuery declared query) (decoded : Decoded r a calls declared (decodedQuery query) s)
    : Decoded r a calls declared query s ↔ ∀ e ∈ query, e.2.head? = some 61 → e.1.size = 1 := by
  have holds (e : Argument × List UInt8) (mem : e ∈ query)
      : e.1.Holds e.2 (s.heap.chars a) ↔ (e.2.head? = some 61 → e.1.size = 1) :=
    holds_decoded (declares.sized _ (is_query.declared e mem)) (is_query.digits e mem)
      (decoded.holds _ (List.mem_map_of_mem mem))
  refine ⟨fun whole e mem => (holds e mem).mp (whole.holds e mem), fun whole => ?_⟩
  obtain ⟨ready, ended, selected, block, made, -, clear⟩ := decoded
  rw [decodedQuery_fst] at clear
  exact ⟨ready, ended, selected, block, made, fun e mem => (holds e mem).mpr (whole e mem), clear⟩

/-- The parser in the query that begins. -/
theorem begun_query (declares : Declares (p.resource r).args declared) (at_url : AtUrl s)
    (room : s.heap.exhausted s.heap.next = false)
    : InQuery p r s.heap.next (s.heap.calls ++ [.alloc ⟨s.heap.next, (p.resource r).args.argsSize⟩]) (begun p r s)
      ∧ Contents declared [] none ((begun p r s).heap.chars s.heap.next) := by
  refine ⟨⟨at_url.state, rfl, rfl, ?_, ?_, ?_, at_url.unmarked, rfl⟩, fun e mem => absurd mem List.not_mem_nil,
    fun e mem => absurd mem List.not_mem_nil, fun e same => (by cases same), fun x mem _ _ i covers => ?_⟩
  · have same : (begun p r s).boundary = s.boundary := by
      simp only [Parse.boundary, Parse.post, begun, Heap.memAlloc, room, Bool.false_eq_true, if_false]
    exact same.trans at_url.no_boundary
  · simp only [begun, Heap.memAlloc, room, Bool.false_eq_true, if_false, Function.update_self]
  · simp only [begun, Heap.memAlloc, room, Bool.false_eq_true, if_false]
  · have inside := declares.inside x mem
    unfold Argument.Covers at covers
    simp only [begun, Function.update_self]
    exact if_pos ⟨by omega, by omega⟩

/-- The arguments of a query whose names are not read at references followed by flags are decoded if and only if there
is memory for them, no value begins with `?`, a byte of the last one is decoded, and none begins with an `=` to be kept.
-/
theorem arguments_decoded (declares : Declares (p.resource r).args declared) (is_query : IsQuery declared query)
    (clear : ∀ e ∈ query, (Place.tree (genTree (declared.map Argument.name))).ClearAlong true e.1.name)
    (at_resource : AtResource p r s) {fuel : Nat} (enough : (queryBytes query).length + 2 ≤ fuel)
    : DecodesQuery p r declared query fuel s rest ↔ s.heap.exhausted s.heap.next = false ∧ Legible query := by
  obtain ⟨at_url, curr, small, resource, tcp⟩ := at_resource
  obtain ⟨fuel, rfl⟩ : ∃ fuel', fuel = (queryBytes query).length + 1 + fuel' + 1 :=
    ⟨fuel - ((queryBytes query).length + 2), by omega⟩
  have selects := selectResource_ref at_url.unselected small ⟨resource, tcp⟩
  unfold DecodesQuery
  rw [parseLoop_turns at_url.unfailed]
  cases room : s.heap.exhausted s.heap.next with
  | true =>
      obtain ⟨s', left, refused⟩ := args_refused (queryBytes query ++ 32 :: rest) declares at_url.state
        at_url.no_boundary curr (ref_high (by omega)) (index_small small).1 selects room
      rw [left]
      refine iff_of_false ?_ fun room => Bool.noConfusion room.1
      rintro ⟨s'', done, decoded⟩
      rw [Option.some.injEq, Parsed.done.injEq] at done
      have selected := decoded.selected
      rw [← done.1, refused] at selected
      cases selected
  | false =>
      obtain ⟨in_query, contents⟩ := begun_query declares at_url room
      rw [args_begun _ declares at_url.state at_url.no_boundary curr (ref_high (by omega)) (index_small small).1 selects
        room]
      dsimp only
      obtain ⟨decodes, spoiled⟩ := query_run rest fuel declares is_query clear
        (fun e _ => List.not_mem_nil) in_query at_url.no_value rfl contents
      by_cases readable : Readable query
      · obtain ⟨s', done, decoded⟩ := decodes readable
        rw [done]
        rw [List.nil_append] at decoded
        refine ⟨?_, fun legible => ⟨s', rfl, (decoded_iff declares is_query decoded).mpr legible.2.whole⟩⟩
        rintro ⟨_, ⟨⟩, whole⟩
        exact ⟨rfl, readable, (decoded_iff declares is_query decoded).mp whole⟩
      · refine iff_of_false ?_ fun legible => readable legible.2.toReadable
        rintro ⟨s', done, decoded⟩
        rcases spoiled readable s' rest done with missed | unready | more
        · rw [decoded.selected] at missed
          cases missed
        · rw [decoded.ready] at unready
          cases unready
        · rw [decoded.calls] at more
          exact Nat.lt_irrefl _ more

end Decoding

--------------------------------------------------
-- A generator with arguments
--------------------------------------------------

/-- A number of one byte, one of two, and a string. -/
def declaredArguments : List Argument :=
  [⟨[110], ⟨.ui8, 1, 0⟩⟩, ⟨[119], ⟨.ui16, 2, 2⟩⟩, ⟨[115], ⟨.str, 4, 4⟩⟩]

/-- A build that serves a generator with these arguments at `/a`. -/
def argumentPages : Program :=
  oneGenerator hello {
    argsTree := genBlobTree (declaredArguments.map Argument.name)
    argsIndex := declaredArguments.map Argument.ref
    argsSize := 8
  }

theorem argumentPages_declares : Declares (argumentPages.resource 0).args declaredArguments where
  tree := rfl
  index := rfl
  inhabited := List.cons_ne_nil _ _
  few := by decide
  distinct := by decide
  nonempty := by decide
  named := by
    unfold declaredArguments
    simp
  fits := by decide
  sized := by
    unfold declaredArguments
    simp [Argument.Sized, Argument.size]
  inside := by decide
  apart := by
    unfold declaredArguments
    simp [Argument.Apart, Argument.offset, Argument.size]

/-- The parser behind `GET /a`. -/
def behindUrl : Parse := { behindGet argumentPages with blob := [128, 0] }

theorem behindUrl_atResource : AtResource argumentPages 0 behindUrl where
  at_url := ⟨rfl, rfl, rfl, rfl, rfl, rfl⟩
  curr := rfl
  small := by decide
  resource := rfl
  tcp := rfl

/-- `n=258&s=hello&w=300`. -/
def mixedQuery : Values :=
  [(⟨[110], ⟨.ui8, 1, 0⟩⟩, [50, 53, 56]), (⟨[115], ⟨.str, 4, 4⟩⟩, [104, 101, 108, 108, 111]),
    (⟨[119], ⟨.ui16, 2, 2⟩⟩, [51, 48, 48])]

theorem mixedQuery_query : IsQuery declaredArguments mixedQuery where
  nonempty := List.cons_ne_nil _ _
  declared := by decide
  once := by decide
  digits := by
    unfold mixedQuery
    simp
  inner := by
    unfold mixedQuery
    simp

theorem mixedQuery_legible : Legible mixedQuery where
  begins := by decide
  ends := by decide
  whole := by decide

/-- A name of one letter is read at the root. -/
theorem declaredArguments_clear (c : UInt8)
    : (Place.tree (genTree (declaredArguments.map Argument.name))).ClearAlong true [c] := by
  have head : (blobRec (genTree (declaredArguments.map Argument.name))).head? = some 115 := by decide
  refine .inl ⟨fun d first => ?_, fun _ _ => trivial⟩
  rw [head] at first
  cases first
  decide

theorem arguments_decoded_mixed : DecodesQuery argumentPages 0 declaredArguments mixedQuery 30 behindUrl [13, 10] :=
  (arguments_decoded argumentPages_declares mixedQuery_query
    (by
      unfold mixedQuery
      simpa using ⟨declaredArguments_clear 110, declaredArguments_clear 115, declaredArguments_clear 119⟩)
    behindUrl_atResource (by decide)).mpr ⟨rfl, mixedQuery_legible⟩

/-- Whether a run ended with an answer to send. -/
def answers : Parsed → Bool
  | .done s _ | .quit s => s.request.readyToSend

/-- `n=`. -/
def emptyQuery : Values := [(⟨[110], ⟨.ui8, 1, 0⟩⟩, [])]

theorem emptyQuery_unready
    : (parseLoop argumentPages 10 behindUrl (63 :: (queryBytes emptyQuery ++ [32]))).map answers = some false := by
  decide

/-- Behind an empty value the space is read at the reference: nothing is answered. -/
theorem arguments_dropped
    : ¬ ∀ (p : Program) (r : Nat) (declared : List Argument) (query : Values) (s : Parse),
      Declares (p.resource r).args declared → IsQuery declared query → AtResource p r s →
        s.heap.exhausted s.heap.next = false → ∀ fuel, (queryBytes query).length + 2 ≤ fuel →
          ∀ rest, DecodesQuery p r declared query fuel s rest := by
  intro claim
  have is_query : IsQuery declaredArguments emptyQuery :=
    ⟨List.cons_ne_nil _ _, by decide, by decide, by simp [emptyQuery], by simp [emptyQuery]⟩
  obtain ⟨s', done, decoded⟩ := claim argumentPages 0 declaredArguments emptyQuery behindUrl argumentPages_declares
    is_query behindUrl_atResource rfl 10 (by decide) []
  have unready := emptyQuery_unready
  rw [done, Option.map_some, answers, decoded.ready] at unready
  cases unready

end Smews.System
