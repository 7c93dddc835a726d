import Smews.Input.Routing
import Smews.Input.Segment
import Smews.Library.Runs

/-! The header of a POST request is read byte by byte, in any segments. What the search of its attributes has
spelled so far tells which of them can follow.
-/

namespace Smews.Input

open Smews.Core Smews.Tools Runs

--------------------------------------------------
-- Words
--------------------------------------------------

/-- Symbols of characters below the references. -/
structure PlainTable (symbols : List Symbol) : Prop extends SymbolTable symbols where
  plain : ∀ word ∈ symbols, ∀ c ∈ word, c < 128

/-- A table is plain when a test of its characters says so. -/
theorem plain_of_all {symbols : List Symbol} (all : symbols.all (fun word => word.all (· < 128)))
    : ∀ word ∈ symbols, ∀ c ∈ word, c < 128 := by
  intro word mem c inside
  exact of_decide_eq_true (List.all_eq_true.mp (List.all_eq_true.mp all word mem) c inside)

/-- `blob` stands where the search is behind a word. -/
def SpelledAt (symbols : List Symbol) (w : Symbol) (blob : List UInt8) : Prop :=
  ∃ place tail, (Place.tree (genTree symbols)).search w = some place ∧ place.Good
    ∧ blob = place.bytes ++ tail

/-- The first byte of a node begins a word. -/
theorem head_entry {t : Ternary} (shaped : t.Shaped) (present : t ≠ .absent)
    : ∃ x v i, (blobRec t).head? = some x ∧ (x :: v, i) ∈ t.entries := by
  cases shaped with
  | absent => exact absurd rfl present
  | @node s c ref inf eq sup _ eq_shaped _ final _ _ _ =>
      obtain ⟨e, mem⟩ : ∃ e, e ∈ own ref ++ eq.entries := by
        cases ref with
        | some r => exact ⟨([], r), List.mem_append_left _ (by simp [own])⟩
        | none =>
            obtain ⟨e, mem⟩ := eq_shaped.exists_entry (final rfl)
            exact ⟨e, List.mem_append_right _ mem⟩
      have word : under s (under [c] e) ∈ (Ternary.node (s ++ [c]) ref inf eq sup).entries := by
        rw [entries_node]
        exact List.mem_map_of_mem (List.mem_append_left _ (List.mem_append_right _ (List.mem_map_of_mem mem)))
      rw [blobRec_node]
      cases s with
      | nil => exact ⟨c, e.1, e.2, rfl, word⟩
      | cons x s => exact ⟨x, s ++ c :: e.1, e.2, rfl, by simpa [under] using word⟩

section Words

variable {symbols : List Symbol} {w : Symbol} {blob : List UInt8} {c : UInt8}

theorem PlainTable.root (table : PlainTable symbols) : SpelledAt symbols [] (genBlobTree symbols) :=
  ⟨.tree (genTree symbols), [], rfl, .tree table.walkable.1 table.walkable.2, (List.append_nil _).symm⟩

/-- The symbols that go on with a word are spelled from its place on. -/
theorem PlainTable.words (table : PlainTable symbols) {place : Place}
    (found : (Place.tree (genTree symbols)).search w = some place)
    : place.Searchable ∧ ∀ v i, symbols[i]? = some (w ++ v) ↔ (v, i) ∈ place.entries := by
  obtain ⟨shaped, entries, -⟩ := genTree_compacted table.accepted table.inhabited
  obtain ⟨searchable, words⟩ := ((Place.Searchable.tree shaped).search_finds w).1 place found
  refine ⟨searchable, fun v i => ?_⟩
  rw [← words v i, Place.entries, entries, mem_sortedSymbols]

theorem PlainTable.no_words (table : PlainTable symbols)
    (missed : (Place.tree (genTree symbols)).search w = none) (v : Symbol) (i : Nat)
    : symbols[i]? ≠ some (w ++ v) := by
  obtain ⟨shaped, entries, -⟩ := genTree_compacted table.accepted table.inhabited
  have none := ((Place.Searchable.tree shaped).search_finds w).2 missed v i
  rwa [Place.entries, entries, mem_sortedSymbols] at none

/-- By induction on the word. -/
theorem Place.search_append (place : Place) (w v : List UInt8)
    : place.search (w ++ v) = (place.search w).bind fun next => next.search v := by
  induction w generalizing place with
  | nil => rfl
  | cons d w ih =>
      rw [List.cons_append, Place.search, Place.search, Option.bind_assoc]
      exact congrArg _ (funext fun next => ih next)

/-- The walk of a byte behind a word, at a character: the search goes on with it when a symbol does. -/
inductive Spells (symbols : List Symbol) (w : Symbol) (blob : List UInt8) (c : UInt8) : Prop
  | found {blob' : List UInt8} (walked : walk c blob.length blob = some (some blob'))
    (spelled : SpelledAt symbols (w ++ [c]) blob') (goes_on : ∃ s ∈ symbols, w ++ [c] <+: s)
  | missed (walked : walk c blob.length blob = some none) (stops : ∀ s ∈ symbols, ¬ (w ++ [c] <+: s))

/-- Behind a word there is its reference, or a character. -/
theorem SpelledAt.next (spelled : SpelledAt symbols w blob) (table : PlainTable symbols)
    : (∃ r, r < 128 ∧ symbols[r]? = some w ∧ blob.head? = some (128 + UInt8.ofNat r))
      ∨ ∃ b, b < 128 ∧ blob.head? = some b ∧ ∀ c, Spells symbols w blob c := by
  obtain ⟨place, tail, found, good, rfl⟩ := spelled
  obtain ⟨searchable, words⟩ := table.words found
  cases searchable with
  | @ref r inf eq sup eq_shaped =>
      have symbol := (words [] r).mpr ((own_words eq_shaped r).mpr rfl)
      rw [List.append_nil] at symbol
      refine .inl ⟨r, ?_, symbol, rfl⟩
      obtain ⟨lt, -⟩ := List.getElem?_eq_some_iff.mp symbol
      exact Nat.lt_of_lt_of_le lt table.few
  | @tree t shaped =>
      have present : t ≠ .absent := by
        cases good with
        | tree _ present => exact present
      obtain ⟨x, v, i, head, word⟩ := head_entry shaped present
      have symbol := (words (x :: v) i).mpr word
      have low : x < 128 := table.plain _ (List.mem_of_getElem? symbol) x
        (List.mem_append_right w List.mem_cons_self)
      refine .inr ⟨x, low, ?_, fun c => ?_⟩
      · rw [Place.bytes, List.head?_append, head]
        rfl
      have walks := good.walks c tail
      have step : (Place.tree t).step c = (Place.tree t).read c := rfl
      have onward : (Place.tree (genTree symbols)).search (w ++ [c]) = (Place.tree t).read c := by
        rw [Place.search_append, found, Option.bind_some, Place.search]
        exact Option.bind_fun_some _
      rw [step] at walks
      cases next : (Place.tree t).read c with
      | none =>
          rw [next] at walks
          refine .missed walks fun s mem prefixes => ?_
          obtain ⟨v, rfl⟩ := prefixes
          obtain ⟨i, at_index⟩ := List.mem_iff_getElem?.mp mem
          exact table.no_words (onward.trans next) v i at_index
      | some place' =>
          rw [next] at walks
          obtain ⟨tail', walked⟩ := walks
          have good' : place'.Good := good.read next
          refine .found walked ⟨place', tail', onward.trans next, good', rfl⟩ ?_
          obtain ⟨searchable', words'⟩ := table.words (onward.trans next)
          obtain ⟨e, mem⟩ := good'.exists_entry searchable'
          have symbol' := (words' e.1 e.2).mpr mem
          exact ⟨_, List.mem_of_getElem? symbol', List.prefix_append _ _⟩

/-- Behind a symbol there is its reference. -/
theorem SpelledAt.symbol (spelled : SpelledAt symbols w blob) (table : PlainTable symbols) {i : Nat}
    (symbol : symbols[i]? = some w)
    : blob.head? = some (128 + UInt8.ofNat i) := by
  obtain ⟨place, tail, found, -, rfl⟩ := spelled
  obtain ⟨searchable, words⟩ := table.words found
  have mem := (words [] i).mp (by rw [List.append_nil]; exact symbol)
  cases searchable with
  | tree shaped => exact absurd mem (tree_words shaped i)
  | @ref r inf eq sup eq_shaped =>
      rw [(own_words eq_shaped i).mp mem]
      rfl

end Words

theorem attributes_table : PlainTable (attributList.map ascii) where
  inhabited := by decide
  accepted := ⟨by decide, by decide⟩
  spelled := by decide +kernel
  few := by decide
  fits := by decide +kernel
  plain := plain_of_all (by decide +kernel)

theorem mimes_table : PlainTable (mimesListPost.map ascii) where
  inhabited := by decide
  accepted := ⟨by decide, by decide⟩
  spelled := by decide +kernel
  few := by decide
  fits := by decide +kernel
  plain := plain_of_all (by decide +kernel)

--------------------------------------------------
-- Reading
--------------------------------------------------

/-- The end of the header was found: the next byte takes the parser to the data. -/
def HeaderRead (s : Parse) : Prop :=
  s.request.parsingState = .postEnd ∧ s.blob.head? = some headerPostEnd

/-- Between two segments the blocks of a request are left alone. -/
def KeepsPost (r : Request) (heap heap' : Heap) : Prop :=
  ∀ a ∈ r.postData, heap'.postData a = heap.postData a
    ∧ ∀ b ∈ (heap.postData a).boundary, heap'.boundary b = heap.boundary b

/-- The parser with the bytes left in the segment: a turn reads a byte and brings the next one, or the next
segment of the request comes.
-/
inductive ReadsOn (p : Program) : Parse × List UInt8 → Option UInt8 → Parse × List UInt8 → Prop
  | byte {s s' : Parse} {c : UInt8} {rest : List UInt8} (goes_on : parsing s (c :: rest))
    (turned : parseTurn p s (c :: rest) = some (.again s', rest))
    : ReadsOn p (s, c :: rest) (some c) (s', rest)
  | segment {s s' : Parse} {o : Outcome} {heap : Heap} {handler : Option HandlerRef} {bytes : List UInt8}
    (finished : finishSegment p s [] = some o) (unfinished : o.request.parsingState ≠ .out)
    (kept : KeepsPost o.request o.heap heap) (started : startSegment p o.request heap handler = some s')
    : ReadsOn p (s, []) none (s', bytes)

/-- A step before the headers. -/
def ReadsUrl (p : Program) (x : Parse × List UInt8) (e : Option UInt8) (x' : Parse × List UInt8) : Prop :=
  x.1.request.parsingState ≠ .postAttributes ∧ ReadsOn p x e x'

/-- A step in the header of a POST request. -/
def ReadsHeader (p : Program) (x : Parse × List UInt8) (e : Option UInt8) (x' : Parse × List UInt8) : Prop :=
  ¬ HeaderRead x.1 ∧ ReadsOn p x e x'

/-- A turn that reads a byte is one of the loop. -/
theorem ReadsOn.looped {s s' : Parse} {c : UInt8} {rest : List UInt8} {fuel : Nat}
    (reads : ReadsOn p (s, c :: rest) (some c) (s', rest))
    : parseLoop p (fuel + 1) s (c :: rest) = parseLoop p fuel s' rest := by
  cases reads with
  | byte goes_on turned => rw [parseLoop, if_pos goes_on, turned]

--------------------------------------------------
-- The turns of the header
--------------------------------------------------

/-- The fields of a request that its header keeps: no argument is read, the length is `n`, and no byte counts
for it.
-/
structure InHeader (n : UInt16) (s : Parse) : Prop where
  no_value : s.request.argRefIndex = 128
  post : ∃ a, s.request.postData = some a ∧ (s.heap.postData a).contentLength = n
    ∧ ∀ b ∈ (s.heap.postData a).boundary, (s.heap.boundary b).readyToCount = false

/-- The fields of POST requests are left alone. -/
structure SamePosts (h h' : Heap) : Prop where
  postData : h'.postData = h.postData
  boundary : h'.boundary = h.boundary

theorem SamePosts.trans {h h' h'' : Heap} (first : SamePosts h h') (second : SamePosts h' h'')
    : SamePosts h h'' :=
  ⟨second.postData.trans first.postData, second.boundary.trans first.boundary⟩

theorem setPostData_self (h : Heap) (a : Addr) (pd : PostData) : (h.setPostData a pd).postData a = pd := by
  simp [Heap.setPostData]

theorem samePosts_memAlloc (h : Heap) (n : UInt16) : SamePosts h (h.memAlloc n).2 := by
  unfold Heap.memAlloc
  split <;> exact ⟨rfl, rfl⟩

theorem samePosts_of_alloc {h h' : Heap} {n : UInt16} {new : Option Addr} (eq : h.memAlloc n = (new, h'))
    : SamePosts h h' := by
  have same := samePosts_memAlloc h n
  rwa [eq] at same

theorem samePosts_memFree (h : Heap) (a : Option Addr) (n : UInt16) : SamePosts h (h.memFree a n) := by
  unfold Heap.memFree
  split
  · exact ⟨rfl, rfl⟩
  · split <;> exact ⟨rfl, rfl⟩

theorem samePosts_chars (h : Heap) (chars : Addr → Int → UInt8) : SamePosts h { h with chars } := ⟨rfl, rfl⟩

theorem samePosts_poke {h h' : Heap} {a : Addr} {i : Int} {c : UInt8} (poked : h.poke a i c = some h')
    : SamePosts h h' := by
  unfold Heap.poke at poked
  split at poked
  · cases poked
    exact ⟨rfl, rfl⟩
  · cases poked

theorem samePosts_memRealloc (h : Heap) (a : Addr) (bytes more : UInt16)
    : SamePosts h (h.memRealloc a bytes more).2 := by
  unfold Heap.memRealloc
  rcases eq : h.memAlloc (bytes + more) with ⟨new, h'⟩
  have alloc := samePosts_of_alloc eq
  cases new with
  | none => exact alloc.trans (samePosts_memFree h' (some a) bytes)
  | some b => exact alloc.trans ((samePosts_chars h' _).trans (samePosts_memFree _ (some a) bytes))

/-- A stage of the header that leaves the state and the array alone. -/
structure KeepsHeader (s t : Parse) : Prop where
  header : ∀ {n}, InHeader n s → InHeader n t
  state : t.request.parsingState = s.request.parsingState
  blob : t.blob = s.blob

section KeepsHeader

variable {s t u : Parse} {n : UInt16}

theorem KeepsHeader.refl (s : Parse) : KeepsHeader s s := ⟨id, rfl, rfl⟩

theorem KeepsHeader.trans (first : KeepsHeader s t) (second : KeepsHeader t u) : KeepsHeader s u :=
  ⟨second.header ∘ first.header, second.state.trans first.state, second.blob.trans first.blob⟩

theorem InHeader.same (header : InHeader n s) (no_value : t.request.argRefIndex = s.request.argRefIndex)
    (post : t.request.postData = s.request.postData) (same : SamePosts s.heap t.heap)
    : InHeader n t := by
  obtain ⟨a, here, length, counts⟩ := header.post
  refine ⟨no_value.trans header.no_value, a, post.trans here, ?_, ?_⟩
  · rw [same.postData]
    exact length
  · rw [same.postData, same.boundary]
    exact counts

theorem KeepsHeader.heap {heap : Heap} (same : SamePosts s.heap heap) : KeepsHeader s { s with heap } :=
  ⟨fun header => header.same rfl rfl same, rfl, rfl⟩

/-- A store into `post_data` that leaves the length and the boundary alone. -/
theorem KeepsHeader.post {f : PostData → PostData} (updated : s.updatePost f = some t)
    (length : ∀ pd, (f pd).contentLength = pd.contentLength) (bound : ∀ pd, (f pd).boundary = pd.boundary)
    : KeepsHeader s t := by
  unfold Parse.updatePost at updated
  cases here : s.request.postData with
  | none =>
      rw [here] at updated
      cases updated
  | some a =>
      rw [here] at updated
      cases updated
      refine ⟨fun header => ?_, rfl, rfl⟩
      obtain ⟨a', same, length', counts⟩ := header.post
      obtain rfl : a = a' := Option.some.inj (here.symm.trans same)
      refine ⟨header.no_value, a, here, ?_, ?_⟩
      · show ((s.heap.setPostData a _).postData a).contentLength = _
        rw [setPostData_self, length, length']
      · show ∀ b ∈ ((s.heap.setPostData a _).postData a).boundary, (s.heap.boundary b).readyToCount = false
        rw [setPostData_self, bound]
        exact counts

/-- A store into the boundary that leaves its counting alone. -/
theorem KeepsHeader.boundary {f : Boundary → Boundary} (updated : s.updateBoundary f = some t)
    (counting : ∀ b, (f b).readyToCount = b.readyToCount)
    : KeepsHeader s t := by
  unfold Parse.updateBoundary at updated
  simp only [Option.bind_eq_bind, Option.bind_eq_some_iff] at updated
  obtain ⟨pd, post, b, bound, same⟩ := updated
  cases same
  refine ⟨fun header => ?_, rfl, rfl⟩
  obtain ⟨a, here, length, counts⟩ := header.post
  refine ⟨header.no_value, a, here, length, fun b' mem => ?_⟩
  show (Function.update s.heap.boundary b _ b').readyToCount = false
  rcases eq_or_ne b' b with rfl | other
  · rw [Function.update_self, counting]
    exact counts b' mem
  · rw [Function.update_of_ne other]
    exact counts b' mem

theorem InHeader.length (header : InHeader n s) : s.post.map PostData.contentLength = some n := by
  obtain ⟨a, here, length, -⟩ := header.post
  rw [Parse.post, here, Option.map_some, Option.map_some, length]

theorem InHeader.counts (header : InHeader n s) : s.boundary.any Boundary.readyToCount = false := by
  obtain ⟨a, here, -, counts⟩ := header.post
  rw [Parse.boundary, Parse.post, here]
  cases bound : (s.heap.postData a).boundary with
  | none => simp [bound]
  | some b => simp [bound, counts b bound]

end KeepsHeader

--------------------------------------------------
-- The attributes
--------------------------------------------------

section Attributes

variable {p : Program} {s t : Parse} {c b : UInt8} {n : UInt16}

theorem reread_eq_some {flow : Flow} (reread : s.reread = some flow)
    : ∃ b, s.blob.head? = some b ∧ flow = .next b s := by
  unfold Parse.reread at reread
  obtain ⟨b, head, same⟩ := Option.map_eq_some_iff.mp reread
  exact ⟨b, head, same.symm⟩

/-- The parser goes back to the root of the attributes. -/
def atAttributes (s : Parse) : Parse := { s.setState .postAttributes with blob := blobHttpHeaderContent }

/-- What the stage of an attribute leaves: the parser is at an array, or at the root of the attributes. -/
structure AttributeRead (blob : List UInt8) (s : Parse) (b : UInt8) (t : Parse) : Prop where
  header : ∀ {n}, InHeader n s → InHeader n t
  state : t.request.parsingState = .postAttributes
  blob : t.blob = blob ∨ t.blob = blobHttpHeaderContent
  curr : t.blob.head? = some b

/-- The stage ends there, or the request is refused. -/
inductive AttributeFlow (blob : List UInt8) (s : Parse) : Flow → Prop
  | next {b : UInt8} {t : Parse} (read : AttributeRead blob s b t) : AttributeFlow blob s (.next b t)
  | leave (t : Parse) : AttributeFlow blob s (.leave t)

theorem KeepsHeader.reread {flow : Flow} (keeps : KeepsHeader s t) (state : s.request.parsingState = .postAttributes)
    (reread : t.reread = some flow)
    : AttributeFlow s.blob s flow := by
  obtain ⟨b, curr, rfl⟩ := reread_eq_some reread
  exact .next ⟨keeps.header, keeps.state.trans state, .inl keeps.blob, curr⟩

theorem InHeader.atAttributes (header : InHeader n s) : InHeader n (atAttributes s) :=
  header.same rfl rfl ⟨rfl, rfl⟩

theorem restart_read {flow : Flow} {blob : List UInt8} (header : ∀ {n}, InHeader n s → InHeader n t)
    (reread : (atAttributes t).reread = some flow)
    : AttributeFlow blob s flow := by
  obtain ⟨b, curr, rfl⟩ := reread_eq_some reread
  exact .next ⟨fun before => (header before).atAttributes, rfl, .inr rfl, curr⟩

theorem endFilename_read {flow : Flow} {a : Addr} (read : endFilename a s = some flow)
    : AttributeFlow s.blob s flow := by
  unfold endFilename at read
  rcases eq : s.heap.memAlloc (UInt16.ofInt (charToInt (s.heap.chars a 0) - 1)) with ⟨new, heap⟩
  have alloc := samePosts_of_alloc eq
  simp only [eq, Option.bind_eq_bind] at read
  cases new with
  | none => exact (Option.some.inj read) ▸ .leave _
  | some new =>
      dsimp only at read
      split at read
      · obtain ⟨u, updated, reread⟩ := Option.bind_eq_some_iff.mp read
        have keeps : KeepsHeader s u := KeepsHeader.trans
          (.heap (alloc.trans ((samePosts_chars heap _).trans (samePosts_memFree _ _ _))))
          (.post updated (fun _ => rfl) fun _ => rfl)
        exact restart_read keeps.header reread
      · cases read

theorem growFilename_header {used allocated : UInt8} {a : Addr} {new : Option Addr}
    (grown : growFilename used allocated a s = some (new, t))
    : KeepsHeader s t := by
  unfold growFilename at grown
  split at grown
  swap
  · cases grown
    exact .refl s
  have realloc := samePosts_memRealloc s.heap a (UInt16.ofInt (charToInt allocated)) 10
  simp only [Option.bind_eq_bind] at grown
  obtain ⟨u, updated, grown⟩ := Option.bind_eq_some_iff.mp grown
  have keeps : KeepsHeader s u := (KeepsHeader.heap realloc).trans (.post updated (fun _ => rfl) fun _ => rfl)
  split at grown
  · cases grown
    exact keeps
  · obtain ⟨heap, poked, same⟩ := Option.bind_eq_some_iff.mp grown
    cases same
    exact keeps.trans (.heap (samePosts_poke poked))

theorem filename_read {flow : Flow} (state : s.request.parsingState = .postAttributes)
    (read : filename c s = some flow)
    : AttributeFlow s.blob s flow := by
  unfold filename at read
  simp only [Option.bind_eq_bind] at read
  obtain ⟨pd, -, read⟩ := Option.bind_eq_some_iff.mp read
  split at read
  · rcases eq : s.heap.memAlloc 10 with ⟨new, heap⟩
    have alloc := samePosts_of_alloc eq
    rw [eq] at read
    cases new with
    | none => exact (Option.some.inj read) ▸ .leave _
    | some a =>
        obtain ⟨heap1, first, read⟩ := Option.bind_eq_some_iff.mp read
        obtain ⟨heap2, second, read⟩ := Option.bind_eq_some_iff.mp read
        obtain ⟨u, updated, reread⟩ := Option.bind_eq_some_iff.mp read
        have same := alloc.trans ((samePosts_poke first).trans (samePosts_poke second))
        exact ((KeepsHeader.heap same).trans (.post updated (fun _ => rfl) fun _ => rfl)).reread state reread
  · split at read
    · exact endFilename_read read
    · unfold filenameByte at read
      simp only [Option.bind_eq_bind] at read
      obtain ⟨⟨new, u⟩, grown, read⟩ := Option.bind_eq_some_iff.mp read
      have keeps := growFilename_header grown
      cases new with
      | none => exact (Option.some.inj read) ▸ .leave _
      | some a =>
          obtain ⟨heap1, first, read⟩ := Option.bind_eq_some_iff.mp read
          obtain ⟨heap2, second, reread⟩ := Option.bind_eq_some_iff.mp read
          exact (keeps.trans (.heap ((samePosts_poke first).trans (samePosts_poke second)))).reread state reread

theorem boundaryByte_read {flow : Flow} {bound : Boundary} (state : s.request.parsingState = .postAttributes)
    (read : boundaryByte c bound s = some flow)
    : AttributeFlow s.blob s flow := by
  unfold boundaryByte at read
  simp only [Option.bind_eq_bind] at read
  obtain ⟨ref, -, read⟩ := Option.bind_eq_some_iff.mp read
  cases ref with
  | crlfcrlf => cases read
  | block a =>
      rcases eq : growBoundary a bound s.heap with ⟨new, size, heap⟩
      have grown : SamePosts s.heap heap := by
        unfold growBoundary at eq
        split at eq
        · have realloc := samePosts_memRealloc s.heap a bound.boundarySize.toUInt16 10
          cases eq
          exact realloc
        · cases eq
          exact ⟨rfl, rfl⟩
      simp only [eq] at read
      cases new with
      | none =>
          obtain ⟨u, -, rfl⟩ := Option.map_eq_some_iff.mp read
          exact .leave _
      | some a' =>
          obtain ⟨heap1, poked, read⟩ := Option.bind_eq_some_iff.mp read
          obtain ⟨u, updated, reread⟩ := Option.bind_eq_some_iff.mp read
          refine KeepsHeader.reread (KeepsHeader.trans ?_ (.boundary updated fun _ => rfl)) state reread
          exact .heap (grown.trans (samePosts_poke poked))

theorem endBoundary_read {flow : Flow} {block : Addr} {bound : Boundary} (state : s.request.parsingState = .postAttributes)
    (read : endBoundary p block bound s = some flow)
    : AttributeFlow s.blob s flow := by
  unfold endBoundary at read
  simp only [Option.bind_eq_bind] at read
  obtain ⟨ref, -, read⟩ := Option.bind_eq_some_iff.mp read
  cases ref with
  | crlfcrlf => cases read
  | block a =>
      rcases eq : s.heap.memAlloc (bound.index.toUInt16 + 5) with ⟨new, heap⟩
      have alloc := samePosts_of_alloc eq
      simp only [eq] at read
      cases new with
      | none => exact (Option.some.inj read) ▸ .leave _
      | some new =>
          obtain ⟨u, updated, read⟩ := Option.bind_eq_some_iff.mp read
          have keeps := KeepsHeader.trans (s := s) (.heap ?_) (.boundary updated fun _ => rfl)
          split at read
          · exact (Option.some.inj read) ▸ .leave _
          · exact keeps.reread state read
          exact (alloc.trans ((samePosts_chars heap _).trans (samePosts_memFree _ _ _))).trans
            (samePosts_memAlloc _ _)

theorem boundaryAttribute_read {flow : Flow} (state : s.request.parsingState = .postAttributes)
    (read : boundaryAttribute p c s = some flow)
    : AttributeFlow s.blob s flow := by
  unfold boundaryAttribute at read
  simp only [Option.bind_eq_bind] at read
  obtain ⟨pd, -, read⟩ := Option.bind_eq_some_iff.mp read
  obtain ⟨block, -, read⟩ := Option.bind_eq_some_iff.mp read
  obtain ⟨bound, -, read⟩ := Option.bind_eq_some_iff.mp read
  split at read
  · exact endBoundary_read state read
  · exact boundaryByte_read state read

/-- What a byte makes of the length. -/
def lengthAfter (c : UInt8) (n : UInt16) : UInt16 :=
  let n := if n = 255 then 0 else n
  if c = 32 ∨ c = 13 then n else n * 10 + (c.toUInt16 - 48)

/-- The stage of the content length: only the length changes. -/
theorem contentLength_read {u : Parse} (header : InHeader n s) (read : contentLength c s = some u)
    : InHeader (lengthAfter c n) u ∧ u.request = s.request ∧ u.blob = s.blob
      ∧ u.outputHandler = s.outputHandler := by
  obtain ⟨a, here, length, counts⟩ := header.post
  unfold contentLength Parse.updatePost at read
  rw [here] at read
  cases read
  refine ⟨⟨header.no_value, a, here, ?_, ?_⟩, rfl, rfl, rfl⟩
  · show ((s.heap.setPostData a _).postData a).contentLength = _
    rw [setPostData_self, lengthAfter, ← length]
    split <;> rfl
  · show ∀ b ∈ ((s.heap.setPostData a _).postData a).boundary, (s.heap.boundary b).readyToCount = false
    rw [setPostData_self]
    split <;> exact counts

theorem multipart_read {flow : Flow} (read : multipart p s = some flow)
    : AttributeFlow blobHttpHeaderContent s flow := by
  unfold multipart at read
  rcases eq : s.heap.memAlloc p.sizeofBoundary with ⟨new, heap⟩
  have alloc := samePosts_of_alloc eq
  simp only [eq, Option.bind_eq_bind] at read
  obtain ⟨s1, bounded, read⟩ := Option.bind_eq_some_iff.mp read
  cases new with
  | none => exact (Option.some.inj read) ▸ .leave _
  | some a =>
      rcases eq' : s1.heap.memAlloc 10 with ⟨ref, heap'⟩
      have alloc' := samePosts_of_alloc eq'
      simp only [eq'] at read
      obtain ⟨s2, filled, read⟩ := Option.bind_eq_some_iff.mp read
      cases ref with
      | none => exact (Option.some.inj read) ▸ .leave _
      | some ref =>
          obtain ⟨s3, typed, read⟩ := Option.bind_eq_some_iff.mp read
          refine restart_read (fun {n} header => ?_) read
          refine (KeepsHeader.post typed (fun _ => rfl) fun _ => rfl).header ?_
          obtain ⟨post, here, length, -⟩ := header.post
          unfold Parse.updatePost at bounded
          rw [here] at bounded
          cases bounded
          unfold Parse.updateBoundary Parse.post at filled
          simp only [here, Option.map_some, Option.bind_eq_bind, Option.bind_some] at filled
          have stored : (heap'.postData post).boundary = some a ∧ (heap'.postData post).contentLength = n := by
            rw [alloc'.postData]
            show ((heap.setPostData post _).postData post).boundary = _
              ∧ ((heap.setPostData post _).postData post).contentLength = _
            rw [setPostData_self, alloc.postData]
            exact ⟨rfl, length⟩
          rw [stored.1] at filled
          cases filled
          refine ⟨header.no_value, post, here, stored.2, fun b mem => ?_⟩
          obtain rfl : a = b := Option.some.inj (stored.1.symm.trans mem)
          show (Function.update heap'.boundary a _ a).readyToCount = false
          rw [Function.update_self]

/-- The stage of a content type: the attributes start over. -/
theorem contentType_read {flow : Flow} {r : UInt8} (read : contentType p r s = some flow)
    : AttributeFlow blobHttpHeaderContent s flow := by
  unfold contentType at read
  split at read
  · exact multipart_read read
  simp only [Option.bind_eq_bind] at read
  obtain ⟨handler, -, read⟩ := Option.bind_eq_some_iff.mp read
  obtain ⟨u, typed, read⟩ := Option.bind_eq_some_iff.mp read
  rcases ite_eq_iff.mp read with ⟨-, none⟩ | ⟨-, reread⟩
  · exact (Option.some.inj none) ▸ .leave _
  · exact restart_read (KeepsHeader.post typed (fun _ => rfl) fun _ => rfl).header reread

end Attributes

--------------------------------------------------
-- Positions
--------------------------------------------------

/-- Attributes are compared in upper case. -/
def upper (c : UInt8) : UInt8 := if c < 123 ∧ 96 < c then c - 97 + 65 else c

/-- `CONTENT-LENGTH` -/
def lengthName : Symbol := ascii "CONTENT-LENGTH"

/-- Where the parser stands in a header, behind a text in upper case: in the search of an attribute, in the
value of a file name or a boundary, in a content type, or in the end of a line.
-/
inductive HeaderPosition (seen : Symbol) (s : Parse) : Prop
  | failed (state : s.request.parsingState = .postContentType) (failed : s.outputHandler.any HandlerRef.isError)
  | word {w : Symbol} (state : s.request.parsingState = .postAttributes) (suffix : w <:+ seen)
    (spelled : SpelledAt (attributList.map ascii) w s.blob)
  | value (state : s.request.parsingState = .postAttributes) {b : UInt8} (curr : s.blob.head? = some b)
    (valued : b = attributFilename + 128 ∨ b = attributBoundary + 128)
  | mime {w : Symbol} (state : s.request.parsingState = .postContentType)
    (spelled : SpelledAt (mimesListPost.map ascii) w s.blob)
  | ending (state : s.request.parsingState = .postEnd)
    (blob : s.blob = [10, 13, 128] ∨ s.blob = [13, 128] ∨ s.blob = [128])

/-- The parser behind a carriage return. -/
inductive Returned (s : Parse) : Prop
  | failed (state : s.request.parsingState = .postContentType) (failed : s.outputHandler.any HandlerRef.isError)
  | ending (state : s.request.parsingState = .postEnd) (blob : s.blob = [10, 13, 128] ∨ s.blob = [128])
  | restart (state : s.request.parsingState = .postAttributes) (blob : s.blob = blobHttpHeaderContent)

/-- What a byte of a header does, unless it belongs to a length. -/
structure Stepped (seen : Symbol) (c : UInt8) (s s' : Parse) : Prop where
  header : ∀ {n}, InHeader n s → InHeader n s'
  position : HeaderPosition (seen ++ [upper c]) s'
  returned : c = 13 → Returned s'

section Positions

variable {p : Program} {s s' t : Parse} {c b : UInt8} {n : UInt16} {seen w : Symbol}

theorem walkBlob_attributes (state : s.request.parsingState = .postAttributes)
    : walkBlob c s
      = (walk (upper c) s.blob.length s.blob).map fun found =>
        .again { s with blob := found.getD blobHttpHeaderContent } := by
  rw [walkBlob]
  simp only [state, true_and, if_true]
  rw [show (if c < 123 ∧ 96 < c then c - 97 + 65 else c) = upper c from rfl]
  rcases walk (upper c) s.blob.length s.blob with _ | _ | blob <;> rfl

theorem attributes_root : SpelledAt (attributList.map ascii) [] blobHttpHeaderContent := by
  rw [blobHttpHeaderContent]
  exact attributes_table.root

theorem InHeader.blob (header : InHeader n s) (blob : List UInt8) : InHeader n { s with blob } :=
  header.same rfl rfl ⟨rfl, rfl⟩

/-- A carriage return begins the end of a line. -/
theorem afterReference_return (state : s.request.parsingState = .postAttributes)
    (no_value : s.request.argRefIndex = 128) (other : b ≠ headerPostEnd)
    : afterReference p 13 b s = some (.again { s.setState .postEnd with blob := [10, 13, 128] }) := by
  have detected : detectHeaderEnd 13 b s = { s.setState .postEnd with blob := blobHttpHeaderEnd } := by
    rw [detectHeaderEnd, if_pos ⟨state, rfl⟩]
  rw [afterReference, detected]
  simp [Parse.setState, no_value, other, blobHttpHeaderEnd]

/-- What the turn of a byte leaves. -/
inductive SteppedFlow (seen : Symbol) (c : UInt8) (s : Parse) : Option Flow → Prop
  | again {s' : Parse} (stepped : Stepped seen c s s') : SteppedFlow seen c s (some (.again s'))
  | leave (t : Parse) : SteppedFlow seen c s (some (.leave t))
  | undefined : SteppedFlow seen c s none

theorem SteppedFlow.of_header {flow : Option Flow} (header : ∀ {n}, InHeader n s → InHeader n t)
    (stepped : SteppedFlow seen c t flow)
    : SteppedFlow seen c s flow := by
  cases stepped with
  | again stepped => exact .again ⟨fun before => stepped.header (header before), stepped.position, stepped.returned⟩
  | leave t => exact .leave t
  | undefined => exact .undefined

theorem attribute_starts {s : Symbol} (mem : s ∈ attributList.map ascii) {c : UInt8} (prefixes : [c] <+: s)
    : c = 67 ∨ c = 70 ∨ c = 66 := by
  obtain ⟨t, rfl⟩ := prefixes
  have heads : ∀ s ∈ attributList.map ascii, s.head? = some 67 ∨ s.head? = some 70 ∨ s.head? = some 66 := by
    decide
  simpa using heads _ mem

/-- Behind a word of the attributes, at a character, a byte is walked. -/
theorem word_walks (state : s.request.parsingState = .postAttributes) (no_value : s.request.argRefIndex = 128)
    (low : b < 128) (other : c ≠ 13)
    : afterReference p c b s
      = (walk (upper c) s.blob.length s.blob).map fun found =>
        .again { s with blob := found.getD blobHttpHeaderContent } := by
  have detected : detectHeaderEnd c b s = s := by
    simp [detectHeaderEnd, state, other]
  have no_skip : skipsWalk c b s = false := by
    rw [skipsWalk, state]
    have no (r : UInt8) (high : 128 ≤ r) : (b = r) = False :=
      eq_false fun same => absurd (UInt8.lt_of_lt_of_le (same ▸ low) high) (UInt8.lt_irrefl _)
    simp [no, attributContentLength, attributBoundary, attributFilename]
  rw [← walkBlob_attributes state]
  simp [afterReference, detected, no_value, state, no_skip]

/-- A byte behind a word of the attributes, at a character. -/
theorem word_steps (state : s.request.parsingState = .postAttributes) (no_value : s.request.argRefIndex = 128)
    (curr : s.blob.head? = some b) (low : b < 128) (suffix : w <:+ seen)
    (spelled : SpelledAt (attributList.map ascii) w s.blob)
    : SteppedFlow seen c s (afterReference p c b s) := by
  by_cases ret : c = 13
  · subst ret
    rw [afterReference_return state no_value (by rintro rfl; exact absurd low (by decide))]
    exact .again ⟨fun header => header.same rfl rfl ⟨rfl, rfl⟩, .ending rfl (.inl rfl),
      fun _ => .ending rfl (.inl rfl)⟩
  rw [word_walks state no_value low ret]
  rcases spelled.next attributes_table with ⟨r, small, -, head⟩ | ⟨-, -, -, spells⟩
  · rw [curr] at head
    exact absurd (Option.some.inj head ▸ low) (UInt8.not_lt.mpr (ref_high small))
  cases spells (upper c) with
  | missed walked =>
      rw [walked]
      exact .again ⟨fun header => header.blob _, .word state List.nil_suffix attributes_root,
        fun same => absurd same ret⟩
  | found walked spelled' =>
      rw [walked]
      refine .again ⟨fun header => header.blob _, .word state ?_ spelled', fun same => absurd same ret⟩
      obtain ⟨before, rfl⟩ := suffix
      exact ⟨before, (List.append_assoc _ _ _).symm⟩

theorem blobHttpHeaderContent_head : blobHttpHeaderContent.head? = some 67 := blobHttpHeaderContent_space.1

theorem mimesTree_head : mimesTree.head? = some 109 := by decide +kernel

/-- A byte at the root of the attributes. -/
theorem root_steps (state : s.request.parsingState = .postAttributes) (no_value : s.request.argRefIndex = 128)
    (root : s.blob = blobHttpHeaderContent) (curr : s.blob.head? = some b)
    : SteppedFlow seen c s (afterReference p c b s) := by
  have low : b < 128 := by
    rw [root, blobHttpHeaderContent_head] at curr
    cases curr
    decide
  exact word_steps state no_value curr low List.nil_suffix (root ▸ attributes_root)

/-- A byte of a file name or a boundary. -/
theorem value_steps (state : s.request.parsingState = .postAttributes) (no_value : s.request.argRefIndex = 128)
    (curr : s.blob.head? = some b) (valued : b = attributFilename + 128 ∨ b = attributBoundary + 128)
    : SteppedFlow seen c s (afterReference p c b s) := by
  by_cases ret : c = 13
  · subst ret
    rw [afterReference_return state no_value (by rcases valued with rfl | rfl <;> decide)]
    exact .again ⟨fun header => header.same rfl rfl ⟨rfl, rfl⟩, .ending rfl (.inl rfl),
      fun _ => .ending rfl (.inl rfl)⟩
  have detected : detectHeaderEnd c b s = s := by
    simp [detectHeaderEnd, state, ret]
  have skipped : skipsWalk c b s = true := by
    rw [skipsWalk, state]
    rcases valued with rfl | rfl <;> simp [attributBoundary, attributFilename]
  have stays : afterReference p c b s = some (.again s) := by
    simp [afterReference, detected, no_value, state, skipped]
  rw [stays]
  exact .again ⟨id, .value state curr valued, fun same => absurd same ret⟩

/-- A byte behind the stage of a file name, a boundary or a content type. -/
theorem AttributeFlow.steps {flow : Flow} {blob : List UInt8} (flows : AttributeFlow blob s flow)
    (header : InHeader n s)
    (here : blob = blobHttpHeaderContent
      ∨ ∀ b ∈ blob.head?, b = attributFilename + 128 ∨ b = attributBoundary + 128)
    : SteppedFlow seen c s (Flow.andThen (some flow) (afterReference p c)) := by
  cases flows with
  | leave t => exact .leave t
  | @next b' t read =>
      have no_value := (read.header header).no_value
      refine .of_header read.header ?_
      rcases read.blob with same | root
      · rcases here with root | valued
        · exact root_steps read.state no_value (same.trans root) read.curr
        · exact value_steps read.state no_value read.curr (valued b' (by rw [← same]; exact read.curr))
      · exact root_steps read.state no_value root read.curr

theorem mimes_return : ∀ s ∈ mimesListPost.map ascii, (13 : UInt8) ∉ s := by decide

/-- A byte of a content type. -/
theorem mime_steps (state : s.request.parsingState = .postContentType)
    (no_value : s.request.argRefIndex = 128)
    (spelled : SpelledAt (mimesListPost.map ascii) w s.blob) (curr : s.blob.head? = some b) (low : b < 128)
    : SteppedFlow seen c s (afterReference p c b s) := by
  have detected : detectHeaderEnd c b s = s := by
    simp [detectHeaderEnd, state]
  rcases spelled.next mimes_table with ⟨r, small, -, head⟩ | ⟨-, -, -, spells⟩
  · rw [curr] at head
    exact absurd (Option.some.inj head ▸ low) (UInt8.not_lt.mpr (ref_high small))
  by_cases skipped : c = 32 ∨ c = 58
  · have stays : afterReference p c b s = some (.again s) := by
      simp [afterReference, detected, no_value, state, skipsWalk, skipped]
    rw [stays]
    refine .again ⟨id, .mime state spelled, fun ret => ?_⟩
    rw [ret] at skipped
    rcases skipped with space | colon
    · cases space
    · cases colon
  have walked : afterReference p c b s = walkBlob c s := by
    simp [afterReference, detected, no_value, state, skipsWalk, skipped]
  have walk_eq : walkBlob c s
      = (walk c s.blob.length s.blob).map fun found =>
          .again (found.elim { s with outputHandler := some .http404 } fun blob => { s with blob }) := by
    have no_attributes : s.request.parsingState ≠ .postAttributes := by
      rw [state]
      exact ParsingState.noConfusion
    rewrite [walkBlob, if_neg fun upper => no_attributes upper.1]
    rcases walk c s.blob.length s.blob with _ | _ | blob
    · rfl
    · exact if_neg no_attributes
    · rfl
  rw [walked, walk_eq]
  have fails : SteppedFlow seen c s (some (.again { s with outputHandler := some .http404 })) :=
    .again ⟨fun header => header.same rfl rfl ⟨rfl, rfl⟩, .failed state rfl, fun _ => .failed state rfl⟩
  cases spells c with
  | missed walked =>
      rw [walked]
      exact fails
  | found walked spelled' goes_on =>
      rw [walked]
      refine .again ⟨fun header => header.blob _, .mime state spelled', fun ret => ?_⟩
      -- no content type has a carriage return
      obtain ⟨s, mem, prefixes⟩ := goes_on
      exact absurd (prefixes.subset (ret ▸ List.mem_append_right w (List.mem_singleton_self c)))
        (mimes_return s mem)

/-- At the root of the attributes. -/
theorem root_spells (c : UInt8) : Spells (attributList.map ascii) [] blobHttpHeaderContent c := by
  rcases attributes_root.next attributes_table with ⟨r, small, -, head⟩ | ⟨-, -, -, spells⟩
  · rw [blobHttpHeaderContent_head] at head
    exact absurd (Option.some.inj head ▸ (by decide : (67 : UInt8) < 128)) (UInt8.not_lt.mpr (ref_high small))
  · exact spells c

/-- A byte that does not belong to the end of a line is walked from the root. -/
theorem ending_walks (state : s.request.parsingState = .postEnd) (no_value : s.request.argRefIndex = 128)
    (other : c ≠ b) (line : b = 10 ∨ b = 13)
    : afterReference p c b s
      = (walk (upper c) blobHttpHeaderContent.length blobHttpHeaderContent).map fun found =>
        .again { atAttributes s with blob := found.getD blobHttpHeaderContent } := by
  have detected : detectHeaderEnd c b s = atAttributes s := by
    simp [detectHeaderEnd, state, other, atAttributes]
  have no_skip : skipsWalk c b (atAttributes s) = false := by
    rcases line with rfl | rfl <;> rfl
  have walked : afterReference p c b s = walkBlob c (atAttributes s) := by
    simp [afterReference, detected, no_skip]
    simp [atAttributes, Parse.setState, no_value]
  rw [walked, walkBlob_attributes rfl]
  rfl

/-- A byte of the end of a line. -/
theorem ending_steps {rest : List UInt8} (state : s.request.parsingState = .postEnd)
    (no_value : s.request.argRefIndex = 128)
    (blob : s.blob = b :: rest) (line : (b = 10 ∧ rest = [13, 128]) ∨ (b = 13 ∧ rest = [128]))
    : SteppedFlow seen c s (afterReference p c b s) := by
  by_cases same : c = b
  · -- the end of the line goes on
    have detected : detectHeaderEnd c b s = s := by
      simp [detectHeaderEnd, state, same]
    have other : b ≠ headerPostEnd := by rcases line with ⟨rfl, -⟩ | ⟨rfl, -⟩ <;> decide
    have passed : afterReference p c b s = some (.again { s with blob := rest }) := by
      simp [afterReference, detected, no_value, state, other, blob]
    rw [passed]
    refine .again ⟨fun header => header.blob _, .ending state ?_, fun ret => .ending state ?_⟩
    · rcases line with ⟨-, rfl⟩ | ⟨-, rfl⟩ <;> simp
    · rcases line with ⟨rfl, -⟩ | ⟨-, rfl⟩
      · rw [ret] at same
        cases same
      · exact .inr rfl
  rw [ending_walks state no_value same (by rcases line with ⟨rfl, -⟩ | ⟨rfl, -⟩ <;> simp)]
  have header {n : UInt16} (before : InHeader n s) (blob : List UInt8)
      : InHeader n { atAttributes s with blob } :=
    before.same rfl rfl ⟨rfl, rfl⟩
  cases root_spells (upper c) with
  | missed walked =>
      rw [walked]
      exact .again ⟨fun before => header before _, .word rfl List.nil_suffix attributes_root,
        fun _ => .restart rfl rfl⟩
  | found walked spelled' goes_on =>
      rw [walked]
      refine .again ⟨fun before => header before _, .word rfl (List.suffix_append _ _) spelled', fun ret => ?_⟩
      -- no attribute begins with a carriage return
      obtain ⟨s, mem, prefixes⟩ := goes_on
      subst ret
      rcases attribute_starts mem prefixes with start | start | start <;> cases start

theorem SteppedFlow.of_turn {flow : Option Flow} {rest : List UInt8} (steps : SteppedFlow seen c s flow)
    (turned : (match flow with
      | none => none
      | some (.input s) => parsePostData p s rest
      | some flow => some (flow, rest)) = some (.again s', rest))
    : Stepped seen c s s' := by
  cases steps with
  | again stepped =>
      cases turned
      exact stepped
  | leave t => cases turned
  | undefined => cases turned

/-- At a reference the stage of the attributes runs. -/
theorem atReference_attributes (state : s.request.parsingState = .postAttributes) (high : ¬ b < 128)
    : atReference p c b s = headerAttribute p c b s := by
  rw [atReference, if_neg high, inputOrReference, referenceStage]
  simp [state]

theorem atReference_contentType (state : s.request.parsingState = .postContentType) (high : ¬ b < 128)
    : atReference p c b s = contentType p b s := by
  rw [atReference, if_neg high, inputOrReference, referenceStage]
  simp [state]

theorem lengthName_index {r : Nat} (symbol : (attributList.map ascii)[r]? = some w) (other : w ≠ lengthName)
    : r = 0 ∨ r = 2 ∨ r = 3 := by
  obtain ⟨lt, -⟩ := List.getElem?_eq_some_iff.mp symbol
  have few : (attributList.map ascii).length = 4 := rfl
  rcases Nat.lt_or_ge r 2 with less | ge
  · rcases Nat.lt_or_ge r 1 with zero | one
    · omega
    · obtain rfl : r = 1 := by omega
      exact absurd (Option.some.inj symbol).symm other
  · omega

/-- A byte at the reference of an attribute other than the content length. -/
theorem reference_steps {r : Nat} (state : s.request.parsingState = .postAttributes) (header : InHeader n s)
    (index : r = 0 ∨ r = 2 ∨ r = 3) (curr : s.blob.head? = some (128 + UInt8.ofNat r))
    : SteppedFlow seen c s
        (Flow.andThen (atReference p c (128 + UInt8.ofNat r) s) (afterReference p c)) := by
  have high : ¬ 128 + UInt8.ofNat r < 128 := UInt8.not_lt.mpr (ref_high (by omega))
  rw [atReference_attributes state high]
  have value {head b : UInt8} (curr : s.blob.head? = some head) (mem : s.blob.head? = some b) : b = head :=
    Option.some.inj (mem.symm.trans curr)
  rcases index with rfl | rfl | rfl
  · let mimes : Parse := { s.setState .postContentType with blob := mimesTree }
    have stage : headerAttribute p c (128 + UInt8.ofNat 0) s = some (.next 109 mimes) := by
      rw [headerAttribute, if_pos (by decide), Parse.reread]
      show mimesTree.head?.map _ = _
      rw [mimesTree_head]
      rfl
    rw [stage]
    refine .of_header (t := mimes) (fun before => before.same rfl rfl ⟨rfl, rfl⟩) ?_
    have spelled : SpelledAt (mimesListPost.map ascii) [] mimes.blob := by
      show SpelledAt _ _ mimesTree
      rw [mimesTree]
      exact mimes_table.root
    exact mime_steps rfl header.no_value spelled mimesTree_head (by decide)
  · have stage : headerAttribute p c (128 + UInt8.ofNat 2) s = filename c s := by
      rw [headerAttribute, if_neg (by decide), if_neg (by decide), if_pos (by decide)]
    rw [stage]
    cases read : filename c s with
    | none => exact .undefined
    | some flow => exact (filename_read state read).steps header (.inr fun b mem => .inl (value curr mem))
  · have stage : headerAttribute p c (128 + UInt8.ofNat 3) s = boundaryAttribute p c s := by
      rw [headerAttribute, if_neg (by decide), if_neg (by decide), if_neg (by decide), if_pos (by decide)]
    rw [stage]
    cases read : boundaryAttribute p c s with
    | none => exact .undefined
    | some flow => exact (boundaryAttribute_read state read).steps header (.inr fun b mem => .inr (value curr mem))

/-- A byte of a header, unless it belongs to a content length. -/
theorem header_step {rest : List UInt8} (position : HeaderPosition seen s) (header : InHeader n s)
    (unread : ¬ HeaderRead s) (other : ¬ lengthName <:+ seen)
    (reads : ReadsOn p (s, c :: rest) (some c) (s', rest))
    : Stepped seen c s s' := by
  cases reads with
  | byte goes_on turned =>
  cases position with
  | failed _ failed => simp [parsing, failed] at goes_on
  | @word w state suffix spelled =>
      rcases spelled.next attributes_table with ⟨r, -, symbol, curr⟩ | ⟨b, low, curr, -⟩ <;>
        rw [turn_text (by rw [state]; rfl) header.counts curr] at turned
      · have index := lengthName_index symbol fun same => other (same ▸ suffix)
        exact (reference_steps state header index curr).of_turn turned
      · refine SteppedFlow.of_turn ?_ turned
        rw [atReference, if_pos low]
        exact word_steps state header.no_value curr low suffix spelled
  | @value state b curr valued =>
      rw [turn_text (by rw [state]; rfl) header.counts curr] at turned
      refine SteppedFlow.of_turn ?_ turned
      rcases valued with rfl | rfl
      · exact reference_steps (r := 2) state header (.inr (.inl rfl)) curr
      · exact reference_steps (r := 3) state header (.inr (.inr rfl)) curr
  | @mime w state spelled =>
      rcases spelled.next mimes_table with ⟨r, small, -, curr⟩ | ⟨b, low, curr, -⟩ <;>
        rw [turn_text (by rw [state]; rfl) header.counts curr] at turned <;>
        refine SteppedFlow.of_turn ?_ turned
      · rw [atReference_contentType state (UInt8.not_lt.mpr (ref_high small))]
        cases read : contentType p (128 + UInt8.ofNat r) s with
        | none => exact .undefined
        | some flow => exact (contentType_read read).steps header (.inl rfl)
      · rw [atReference, if_pos low]
        exact mime_steps state header.no_value spelled curr low
  | ending state blob =>
      have line : ∃ b rest, s.blob = b :: rest ∧ ((b = 10 ∧ rest = [13, 128]) ∨ (b = 13 ∧ rest = [128])) := by
        rcases blob with blob | blob | blob
        · exact ⟨10, _, blob, .inl ⟨rfl, rfl⟩⟩
        · exact ⟨13, _, blob, .inr ⟨rfl, rfl⟩⟩
        · exact absurd ⟨state, by rw [blob]; rfl⟩ unread
      obtain ⟨b, left, blob, line⟩ := line
      rw [turn_text (by rw [state]; rfl) header.counts (by rw [blob]; rfl)] at turned
      refine SteppedFlow.of_turn ?_ turned
      rw [atReference, if_pos (by rcases line with ⟨rfl, -⟩ | ⟨rfl, -⟩ <;> decide)]
      exact ending_steps state header.no_value blob line

end Positions

end Smews.Input
