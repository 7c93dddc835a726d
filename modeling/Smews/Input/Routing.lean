import Smews.Input.BlobWalk
import Smews.Input.Parser

/-! Which resource a request line selects: the search of an URL in the ternary tree, and the turns of the
parser that make it.
-/

namespace Smews.Input

open Smews.Core Smews.Tools

--------------------------------------------------
-- The search of a word
--------------------------------------------------

/-- The words that are spelled from a place on. -/
def Place.entries : Place → List Entry
  | .tree t => t.entries
  | .ref r _ eq _ => own (some r) ++ eq.entries

/-- The subtrees of a place are search trees. -/
inductive Place.Searchable : Place → Prop
  | tree {t : Ternary} (shaped : t.Shaped) : Searchable (.tree t)
  | ref {r : Nat} {inf eq sup : Ternary} (eq_shaped : eq.Shaped) : Searchable (.ref r inf eq sup)

/-- There is a word from every place on. -/
theorem Place.Good.exists_entry {place : Place} (good : place.Good) (searchable : place.Searchable)
    : ∃ e, e ∈ place.entries := by
  cases searchable with
  | tree shaped =>
      cases good with
      | tree _ present => exact shaped.exists_entry present
  | @ref r inf eq sup => exact ⟨([], r), List.mem_append_left _ (by simp [own])⟩

/-- What a step of the search finds: the words that go on with a character. -/
structure Finds (words : List Entry) (d : UInt8) (next : Option Place) : Prop where
  found : ∀ place, next = some place →
    place.Searchable ∧ ∀ w i, (d :: w, i) ∈ words ↔ (w, i) ∈ place.entries
  missed : next = none → ∀ w i, (d :: w, i) ∉ words

theorem mem_under_singleton {c d : UInt8} {w : Symbol} {i : Nat} {words : List Entry}
    : (d :: w, i) ∈ words.map (under [c]) ↔ d = c ∧ (w, i) ∈ words := by
  rw [List.mem_map]
  constructor
  · rintro ⟨e, mem, same⟩
    obtain ⟨string, rfl⟩ := Prod.mk.inj same
    obtain ⟨rfl, rfl⟩ := List.cons.inj string
    exact ⟨rfl, mem⟩
  · rintro ⟨rfl, mem⟩
    exact ⟨_, mem, rfl⟩

theorem behind_finds (ref : Option Nat) (inf sup : Ternary) {eq : Ternary} (eq_shaped : eq.Shaped)
    {c : UInt8}
    : Finds ((own ref ++ eq.entries).map (under [c])) c (behind ref inf eq sup) := by
  cases ref with
  | some r =>
      refine ⟨fun place same => ?_, fun none => by cases none⟩
      cases same
      exact ⟨.ref eq_shaped, fun w i => by rw [mem_under_singleton, and_iff_right rfl]; rfl⟩
  | none =>
      cases eq with
      | absent =>
          refine ⟨fun place same => (by cases same), fun _ w i mem => ?_⟩
          simp [own] at mem
      | node =>
          refine ⟨fun place same => ?_, fun none => by cases none⟩
          cases same
          exact ⟨.tree eq_shaped, fun w i => by rw [mem_under_singleton, and_iff_right rfl]; rfl⟩

/-- A step of the search finds the words that go on with the character. By induction on the tree: the words
under `<` and `>` begin with smaller and greater characters.
-/
theorem step_finds {t : Ternary} (shaped : t.Shaped) (d : UInt8) : Finds t.entries d (step t d) := by
  induction shaped with
  | absent => exact ⟨fun _ same => (nomatch same), fun _ _ _ mem => nomatch mem⟩
  | @node s c ref inf eq sup inf_shaped eq_shaped sup_shaped final left below above inf_ih _ sup_ih =>
      rw [entries_node]
      cases s with
      | cons x s =>
          obtain ⟨y, s', string⟩ : ∃ y s', s ++ [c] = y :: s' :=
            List.exists_cons_of_ne_nil (List.append_ne_nil_of_right_ne_nil s (List.cons_ne_nil c []))
          rw [List.cons_append, string, step_string]
          have split : ((inf.entries ++ (own ref ++ eq.entries).map (under [c]) ++ sup.entries).map
              (under (x :: s))) = (Ternary.node (s ++ [c]) ref inf eq sup).entries.map (under [x]) := by
            rw [entries_node, List.map_map]
            rfl
          rw [split, string]
          refine ⟨fun place same => ?_, fun none w i mem => ?_⟩
          · split_ifs at same with same_head
            cases same
            rw [← string]
            exact ⟨.tree (.node inf_shaped eq_shaped sup_shaped final left below above), fun w i => by
              rw [mem_under_singleton, and_iff_right same_head]
              rfl⟩
          · obtain ⟨same_head, -⟩ := mem_under_singleton.mp mem
            rw [if_pos same_head] at none
            cases none
      | nil =>
          rw [List.nil_append, under_nil, List.map_id, step_last]
          have under_below (w : Symbol) (i : Nat) (le : c ≤ d) : (d :: w, i) ∉ inf.entries := by
            intro mem
            obtain ⟨d', less, w', string⟩ := below _ mem
            obtain ⟨rfl, -⟩ := List.cons.inj string
            exact UInt8.not_lt.mpr le less
          have under_above (w : Symbol) (i : Nat) (le : d ≤ c) : (d :: w, i) ∉ sup.entries := by
            intro mem
            obtain ⟨d', less, w', string⟩ := above _ mem
            obtain ⟨rfl, -⟩ := List.cons.inj string
            exact UInt8.not_lt.mpr le less
          by_cases same : d = c
          · subst same
            rw [if_pos rfl]
            have finds := behind_finds ref inf sup eq_shaped (c := d)
            have here (w : Symbol) (i : Nat)
                : (d :: w, i) ∈ inf.entries ++ (own ref ++ eq.entries).map (under [d]) ++ sup.entries
                  ↔ (d :: w, i) ∈ (own ref ++ eq.entries).map (under [d]) := by
              rw [List.mem_append, List.mem_append, or_iff_left (under_above w i (UInt8.le_refl d)),
                or_iff_right (under_below w i (UInt8.le_refl d))]
            exact ⟨fun place next => ⟨(finds.found place next).1, fun w i =>
              (here w i).trans ((finds.found place next).2 w i)⟩,
              fun none w i mem => finds.missed none w i ((here w i).mp mem)⟩
          · rw [if_neg same]
            have not_here (w : Symbol) (i : Nat) : (d :: w, i) ∉ (own ref ++ eq.entries).map (under [c]) :=
              fun mem => same (mem_under_singleton.mp mem).1
            by_cases before : d < c
            · rw [if_pos before]
              have here (w : Symbol) (i : Nat)
                  : (d :: w, i) ∈ inf.entries ++ (own ref ++ eq.entries).map (under [c]) ++ sup.entries
                    ↔ (d :: w, i) ∈ inf.entries := by
                rw [List.mem_append, List.mem_append, or_iff_left (under_above w i (UInt8.le_of_lt before)),
                  or_iff_left (not_here w i)]
              exact ⟨fun place next => ⟨(inf_ih.found place next).1, fun w i =>
                (here w i).trans ((inf_ih.found place next).2 w i)⟩,
                fun none w i mem => inf_ih.missed none w i ((here w i).mp mem)⟩
            · rw [if_neg before]
              have here (w : Symbol) (i : Nat)
                  : (d :: w, i) ∈ inf.entries ++ (own ref ++ eq.entries).map (under [c]) ++ sup.entries
                    ↔ (d :: w, i) ∈ sup.entries := by
                rw [List.mem_append, List.mem_append,
                  or_iff_right (not_or.mpr ⟨under_below w i (UInt8.not_lt.mp before), not_here w i⟩)]
              exact ⟨fun place next => ⟨(sup_ih.found place next).1, fun w i =>
                (here w i).trans ((sup_ih.found place next).2 w i)⟩,
                fun none w i mem => sup_ih.missed none w i ((here w i).mp mem)⟩

--------------------------------------------------
-- The search of an URL
--------------------------------------------------

/-- Whether the matcher takes a byte for one of an URL: it stands neither at the mark of a POST resource nor
at a reference followed by flags, and the byte does not begin arguments.
-/
def Place.Clear : Place → UInt8 → Prop
  | .tree t, _ => ∀ c ∈ (blobRec t).head?, c < 128
  | .ref _ inf eq sup, d => inf = .absent ∧ eq ≠ .absent ∧ sup = .absent ∧ d ≠ 63 ∧ d ≠ 38

/-- Where the search goes on with a byte of an URL. -/
def Place.read : Place → UInt8 → Option Place
  | .tree t, d => Input.step t d
  | .ref _ _ eq _, d => Input.step eq d

/-- A place at the mark of a POST resource. -/
def Place.AtMark : Place → Prop
  | .tree t => (blobRec t).head? = some urlPostEnd
  | .ref _ _ _ _ => False

/-- Whether every byte of a word is taken for one of an URL, as long as the search did not fail. At a mark a
GET request fails, which is right when no URL goes on there.
-/
def Place.ClearAlong (posted : Bool) : Place → List UInt8 → Prop
  | _, [] => True
  | place, d :: w =>
      (place.Clear d ∧ ∀ next ∈ place.read d, next.ClearAlong posted w)
        ∨ (posted = false ∧ place.AtMark ∧ ∀ i, (d :: w, i) ∉ place.entries)

/-- Where the search of a word ends. -/
def Place.search : Place → List UInt8 → Option Place
  | place, [] => some place
  | place, d :: w => (place.read d).bind fun next => next.search w

theorem Place.Searchable.read_finds {place : Place} (searchable : place.Searchable) (d : UInt8)
    : Finds place.entries d (place.read d) := by
  cases searchable with
  | tree shaped => exact step_finds shaped d
  | @ref r inf eq sup eq_shaped =>
      have finds := step_finds eq_shaped d
      have here (w : Symbol) (i : Nat)
          : (d :: w, i) ∈ own (some r) ++ eq.entries ↔ (d :: w, i) ∈ eq.entries := by
        simp [own]
      exact ⟨fun place next => ⟨(finds.found place next).1, fun w i =>
        (here w i).trans ((finds.found place next).2 w i)⟩,
        fun none w i mem => finds.missed none w i ((here w i).mp mem)⟩

/-- The words that go on with another word, by induction on it. -/
theorem Place.Searchable.search_finds {place : Place} (searchable : place.Searchable) (w : List UInt8)
    : (∀ place', place.search w = some place' →
        place'.Searchable ∧ ∀ v i, (w ++ v, i) ∈ place.entries ↔ (v, i) ∈ place'.entries)
      ∧ (place.search w = none → ∀ v i, (w ++ v, i) ∉ place.entries) := by
  induction w generalizing place with
  | nil =>
      refine ⟨fun place' same => ?_, fun none => nomatch none⟩
      cases same
      exact ⟨searchable, fun v i => Iff.rfl⟩
  | cons d w ih =>
      obtain ⟨found, missed⟩ := searchable.read_finds d
      rw [Place.search]
      cases next : place.read d with
      | none => exact ⟨fun _ same => (nomatch same), fun _ v i mem => missed next (w ++ v) i mem⟩
      | some place' =>
          obtain ⟨searchable', words⟩ := found place' next
          obtain ⟨found', missed'⟩ := ih searchable'
          refine ⟨fun place'' same => ⟨(found' place'' same).1, fun v i => ?_⟩, fun none v i mem => ?_⟩
          · exact (words (w ++ v) i).trans ((found' place'' same).2 v i)
          · exact missed' none v i ((words (w ++ v) i).mp mem)

--------------------------------------------------
-- The turns of the parser in an URL
--------------------------------------------------

/-- The states of a request line and of a header. -/
def readsText : ParsingState → Bool
  | .cmd | .url | .postAttributes | .postEnd | .postContentType => true
  | _ => false

/-- The parser reads an URL, and no resource is selected yet. -/
structure AtUrl (s : Parse) : Prop where
  state : s.request.parsingState = .url
  unselected : s.outputHandler = none
  no_args : s.request.args = .null
  no_value : s.request.argRefIndex = 128
  unmarked : s.request.postUrlDetected = false
  no_boundary : s.boundary = none

section Turns

variable {p : Program} {s : Parse} {c d blobCurr : UInt8}

/-- The loop of the parser reads a byte of text, and goes through the stages at a reference. -/
theorem turn_text {rest : List UInt8} (text : readsText s.request.parsingState)
    (counts : s.boundary.any Boundary.readyToCount = false) (curr : s.blob.head? = some blobCurr)
    : parseTurn p s (c :: rest)
      = match Flow.andThen (atReference p c blobCurr s) (afterReference p c) with
        | none => none
        | some (.input s) => parsePostData p s rest
        | some flow => some (flow, rest) := by
  have not_ended : multipartEnded s = false := by
    rw [multipartEnded]
    cases post : s.post with
    | none => rfl
    | some pd =>
        cases bound : s.boundary with
        | none => rfl
        | some b =>
            rw [bound] at counts
            simp [show b.readyToCount = false from counts]
  have no_input : s.request.parsingState ≠ .postData := fun state => by
    rw [state] at text
    cases text
  have no_count : countByte s = some s := by
    have no : countsContent s = false := by
      rw [countsContent, counts]
      cases state : s.request.parsingState <;> first | rfl | (rw [state] at text; cases text)
    rw [countByte, no]
    rfl
  have stage : boundaryStage c blobCurr s = some (.next blobCurr s) := by
    rw [boundaryStage]
    cases state : s.request.parsingState <;> first | rfl | (rw [state] at text; cases text)
  have byte : parseByte p c blobCurr s = Flow.andThen (atReference p c blobCurr s) (afterReference p c) := by
    rw [parseByte, no_count, Option.bind_eq_bind, Option.bind_some, stage]
    rfl
  rw [parseTurn, curr, Option.bind_eq_bind, Option.bind_some, not_ended, if_neg Bool.false_ne_true,
    if_neg no_input]
  dsimp only
  rewrite [byte]
  rcases Flow.andThen _ _ with _ | flow
  · rfl
  · cases flow <;> rfl

theorem parseTurn_url {rest : List UInt8} (state : s.request.parsingState = .url)
    (no_boundary : s.boundary = none) (curr : s.blob.head? = some blobCurr)
    : parseTurn p s (c :: rest)
      = match Flow.andThen (atReference p c blobCurr s) (afterReference p c) with
        | none => none
        | some (.input s) => parsePostData p s rest
        | some flow => some (flow, rest) :=
  turn_text (by rw [state]; rfl) (by rw [no_boundary]; rfl) curr

theorem afterReference_url (state : s.request.parsingState = .url) (no_value : s.request.argRefIndex = 128)
    : afterReference p c blobCurr s = walkBlob c s := by
  have detected : detectHeaderEnd c blobCurr s = s := by
    simp [detectHeaderEnd, state]
  have walked : skipsWalk c blobCurr s = false := by
    rw [skipsWalk, state]
  simp [afterReference, detected, no_value, state, walked]

/-- The walk in an URL. -/
theorem walkBlob_url (state : s.request.parsingState = .url)
    : walkBlob c s
      = match walk c s.blob.length s.blob with
        | none => none
        | some (some blob) => some (.again { s with blob })
        | some none => some (.again { s with outputHandler := some .http404 }) := by
  have no_attributes : s.request.parsingState ≠ .postAttributes := by
    rw [state]
    exact ParsingState.noConfusion
  rewrite [walkBlob, if_neg fun upper => no_attributes upper.1]
  rcases walk c s.blob.length s.blob with _ | _ | blob
  · rfl
  · exact if_neg no_attributes
  · rfl

/-- A byte is taken for one of an URL: the walk goes on with it from a place. -/
theorem walkBlob_place {place : Place} {tail : List UInt8} (good : place.Good)
    (state : s.request.parsingState = .url) (blob : s.blob = place.bytes ++ tail)
    : (∀ next, place.step d = some next → ∃ tail',
        walkBlob d s = some (.again { s with blob := next.bytes ++ tail' }))
      ∧ (place.step d = none → walkBlob d s = some (.again { s with outputHandler := some .http404 })) := by
  have walks := good.walks d tail
  rw [walkBlob_url state, blob]
  cases next : place.step d with
  | none =>
      rw [next] at walks
      refine ⟨fun _ same => (nomatch same), fun _ => ?_⟩
      rw [show walk d _ _ = some none from walks, ← blob]
  | some next' =>
      rw [next] at walks
      obtain ⟨tail', walked⟩ := walks
      refine ⟨fun place' same => ⟨tail', ?_⟩, fun none => nomatch none⟩
      cases same
      rw [walked]

/-- At a character of the array the byte is walked. -/
theorem url_at_character {place : Place} {tail : List UInt8} (good : place.Good)
    (state : s.request.parsingState = .url) (no_value : s.request.argRefIndex = 128)
    (blob : s.blob = place.bytes ++ tail) (low : blobCurr < 128)
    : (∀ next, place.step d = some next → ∃ tail',
        Flow.andThen (atReference p d blobCurr s) (afterReference p d)
          = some (.again { s with blob := next.bytes ++ tail' }))
      ∧ (place.step d = none →
        Flow.andThen (atReference p d blobCurr s) (afterReference p d)
          = some (.again { s with outputHandler := some .http404 })) := by
  have stage : Flow.andThen (atReference p d blobCurr s) (afterReference p d) = walkBlob d s := by
    rw [atReference, if_pos low, Flow.andThen, afterReference_url state no_value]
  rw [stage]
  exact walkBlob_place good state blob

/-- At a reference the stage is the one of a resource. -/
theorem url_at_reference (state : s.request.parsingState = .url) (high : 128 ≤ blobCurr)
    (no_mark : blobCurr ≠ 255)
    : atReference p d blobCurr s = resourceOrArgument p d blobCurr s := by
  rw [atReference, if_neg (UInt8.not_lt.mpr high), inputOrReference, referenceStage, state]
  simp [no_mark, urlPostEnd]

/-- A byte of a word that goes on behind a reference. -/
theorem resourceOrArgument_passes {e : UInt8} {more : List UInt8} (state : s.request.parsingState = .url)
    (no_space : d ≠ 32) (no_args : d ≠ 63) (no_other : d ≠ 38) (no_value : d = 61 → s.request.args = .null)
    (blob : s.blob.drop 1 = e :: more)
    : resourceOrArgument p d blobCurr s = some (.next e { s with blob := e :: more }) := by
  rw [resourceOrArgument, if_neg no_space, if_neg (by simp [no_args, state])]
  by_cases equals : d = 61
  · simp [no_value equals, no_other, blob, Parse.reread]
  · simp [equals, no_other, blob, Parse.reread]

/-- Behind a reference the next byte of an URL, or of the name of an argument, is walked. -/
theorem url_behind_reference {r : Nat} {eq : Ternary} {tail : List UInt8} (eq_walkable : Walkable eq)
    (state : s.request.parsingState = .url) (no_value : s.request.argRefIndex = 128) (present : eq ≠ .absent)
    (small : r < 127) (no_space : d ≠ 32) (no_args : d ≠ 63) (no_other : d ≠ 38)
    (no_equals : d = 61 → s.request.args = .null) (blob : s.blob = (128 + UInt8.ofNat r) :: (blobRec eq ++ tail))
    (curr : blobCurr = 128 + UInt8.ofNat r)
    : (∀ next, step eq d = some next → ∃ tail',
        Flow.andThen (atReference p d blobCurr s) (afterReference p d)
          = some (.again { s with blob := next.bytes ++ tail' }))
      ∧ (step eq d = none →
        Flow.andThen (atReference p d blobCurr s) (afterReference p d)
          = some (.again { s with blob := blobRec eq ++ tail, outputHandler := some .http404 })) := by
  have no_mark : blobCurr ≠ 255 := by
    rw [curr, ne_eq, ← UInt8.toNat_inj, UInt8.toNat_add, UInt8.toNat_ofNat']
    simp only [UInt8.reduceToNat, Nat.reducePow]
    omega
  have high : 128 ≤ blobCurr := by
    rw [curr]
    exact ref_high (by omega)
  obtain ⟨e, more, string, -⟩ := blobRec_head eq_walkable present
  have behind : s.blob.drop 1 = e :: (more ++ tail) := by
    rw [blob, List.drop_one, List.tail_cons, string, List.cons_append]
  have stage : resourceOrArgument p d blobCurr s
      = some (.next e { s with blob := blobRec eq ++ tail }) := by
    rw [resourceOrArgument_passes state no_space no_args no_other no_equals behind, string, List.cons_append]
  have walked : afterReference p d e { s with blob := blobRec eq ++ tail }
      = walkBlob d { s with blob := blobRec eq ++ tail } :=
    afterReference_url state no_value
  rw [url_at_reference state high no_mark, stage, Flow.andThen, walked]
  exact walkBlob_place (.tree eq_walkable present) state rfl

/-- A byte of an URL, or of the name of an argument. -/
theorem url_byte (rest : List UInt8) {place : Place} {tail : List UInt8} (state : s.request.parsingState = .url)
    (no_boundary : s.boundary = none) (no_value : s.request.argRefIndex = 128) (good : place.Good)
    (low : ∀ e ∈ place.entries, e.2 < 127) (clear : place.Clear d) (no_space : d ≠ 32)
    (no_equals : d = 61 → s.request.args = .null) (blob : s.blob = place.bytes ++ tail)
    : (∀ next, place.read d = some next → ∃ tail',
        parseTurn p s (d :: rest) = some (.again { s with blob := next.bytes ++ tail' }, rest))
      ∧ (place.read d = none → ∃ s', parseTurn p s (d :: rest) = some (.again s', rest)
        ∧ s'.outputHandler = some .http404) := by
  cases good with
  | @tree t walkable present =>
      obtain ⟨e, more, string, -⟩ := blobRec_head walkable present
      have head : s.blob.head? = some e := by rw [blob, Place.bytes, string]; rfl
      have below : e < 128 := clear e (by rw [string]; rfl)
      obtain ⟨found, missed⟩ := url_at_character (.tree walkable present) state no_value blob below
      rw [parseTurn_url state no_boundary head]
      refine ⟨fun next same => ?_, fun none => ?_⟩
      · obtain ⟨tail', turned⟩ := found next same
        exact ⟨tail', by rw [turned]⟩
      · exact ⟨_, by rw [missed none], rfl⟩
  | @ref r inf eq sup small _ eq_walkable _ left _ =>
      obtain ⟨rfl, present, rfl, no_args, no_other⟩ := clear
      rw [Place.bytes, links_eq present] at blob
      have head : s.blob.head? = some (128 + UInt8.ofNat r) := by rw [blob]; rfl
      obtain ⟨found, missed⟩ := url_behind_reference eq_walkable state no_value present
        (low ([], r) (List.mem_append_left _ (by simp [own]))) no_space no_args no_other no_equals blob rfl
      rw [parseTurn_url state no_boundary head]
      refine ⟨fun next same => ?_, fun none => ?_⟩
      · obtain ⟨tail', turned⟩ := found next same
        exact ⟨tail', by rw [turned]⟩
      · exact ⟨_, by rw [missed none], rfl⟩

/-- The mark that the URL of a request ends with in the table: of a POST request. -/
def methodMark (s : Parse) : List UInt8 := if s.request.postData.isSome then [urlPostEnd] else []

/-- What the generated tables say of the words from a place on: their references name resources, a space is
in none of them, and no character is above 127 but the mark of a POST resource.
-/
structure UrlWords (p : Program) (words : List Entry) : Prop where
  low : ∀ e ∈ words, e.2 < 127
  resource : ∀ e ∈ words, p.resourcesIndex (UInt8.ofNat e.2) = some (.resource e.2)
    ∧ p.isGpIp (.resource e.2) = false
  no_space : ∀ e ∈ words, 32 ∉ e.1
  mark : ∀ e ∈ words, ∀ c ∈ e.1, 128 ≤ c → c = 255

/-- The handler that a request line selects. -/
structure Selects (s : Parse) (words : List Entry) (handler : Option HandlerRef) : Prop where
  resource : ∀ i, (methodMark s, i) ∈ words → handler = some (.resource i)
  other : (∀ i, (methodMark s, i) ∉ words) → handler = some .http404

theorem blobHttpHeaderContent_space
    : blobHttpHeaderContent.head? = some 67
      ∧ walk 32 blobHttpHeaderContent.length blobHttpHeaderContent = some none := by
  decide +kernel

theorem ref_sub {r : Nat} : 128 + UInt8.ofNat r - 128 = UInt8.ofNat r := by
  rw [UInt8.add_comm, UInt8.add_sub_cancel]

theorem own_words {r : Nat} {eq : Ternary} (eq_shaped : eq.Shaped) (i : Nat)
    : ([], i) ∈ own (some r) ++ eq.entries ↔ i = r := by
  rw [List.mem_append, or_iff_left fun mem => eq_shaped.entry_nonempty _ mem rfl]
  simp [own]

/-- The resource behind a reference is selected. -/
theorem selectResource_ref {r : Nat} (unselected : s.outputHandler = none) (small : r < 127)
    (resource : p.resourcesIndex (UInt8.ofNat r) = some (.resource r) ∧ p.isGpIp (.resource r) = false)
    : selectResource p (128 + UInt8.ofNat r) s = some (.resource r) := by
  have high : ¬ 128 + UInt8.ofNat r < 128 := UInt8.not_lt.mpr (ref_high (by omega))
  simp [selectResource, unselected, high, ref_sub, resource.1, resource.2]

/-- The parser at the first header of a POST request. -/
def atHeaders (s : Parse) (r : Nat) : Parse :=
  { s with
    request := { s.request with parsingState := .postAttributes, readyToSend := false }
    outputHandler := some (.resource r)
    blob := blobHttpHeaderContent
  }

/-- A space behind the mark of a POST resource. -/
theorem urlSpace_marked {r : Nat} (unselected : s.outputHandler = none) (small : r < 127)
    (resource : p.resourcesIndex (UInt8.ofNat r) = some (.resource r) ∧ p.isGpIp (.resource r) = false)
    (posted : s.request.postData.isSome) (marked : s.request.postUrlDetected = true)
    (no_value : s.request.argRefIndex = 128)
    : Flow.andThen (urlSpace p (128 + UInt8.ofNat r) s) (afterReference p 32)
      = some (.again (atHeaders s r)) := by
  obtain ⟨head, walked⟩ := blobHttpHeaderContent_space
  have stage : urlSpace p (128 + UInt8.ofNat r) s = some (.next 67 (atHeaders s r)) := by
    rw [urlSpace, marked, selectResource_ref unselected small resource]
    simp [posted, Parse.reread, head, atHeaders]
  have detected : detectHeaderEnd 32 67 (atHeaders s r) = atHeaders s r := by
    simp [detectHeaderEnd, atHeaders]
  rw [stage, Flow.andThen, afterReference, detected]
  simp [atHeaders, no_value, skipsWalk, walkBlob, walked, attributContentLength, attributBoundary,
    attributFilename]

/-- A space at a reference. -/
theorem url_space_ref {r : Nat} {inf eq sup : Ternary} {tail : List UInt8} (at_url : AtUrl s)
    (eq_shaped : eq.Shaped) (words : UrlWords p (own (some r) ++ eq.entries))
    (blob : s.blob = (Place.ref r inf eq sup).bytes ++ tail)
    (ends : s.request.postData.isSome → ∀ i, ([urlPostEnd], i) ∉ own (some r) ++ eq.entries)
    : ∃ s', parseTurn p s [32] = some (.leave s', [])
      ∧ Selects s (own (some r) ++ eq.entries) s'.outputHandler := by
  have here : ([], r) ∈ own (some r) ++ eq.entries := (own_words eq_shaped r).mpr rfl
  have small : r < 127 := words.low _ here
  have no_mark : 128 + UInt8.ofNat r ≠ 255 := by
    rw [ne_eq, ← UInt8.toNat_inj, UInt8.toNat_add, UInt8.toNat_ofNat']
    simp only [UInt8.reduceToNat, Nat.reducePow]
    omega
  have head : s.blob.head? = some (128 + UInt8.ofNat r) := by rw [blob]; rfl
  rw [parseTurn_url at_url.state at_url.no_boundary head,
    url_at_reference at_url.state (ref_high (by omega)) no_mark, resourceOrArgument, if_pos rfl, urlSpace]
  cases posted : s.request.postData with
  | some a =>
      refine ⟨{ s with outputHandler := some .http404 }, ?_, fun i mem => ?_, fun _ => rfl⟩
      · rw [at_url.unmarked, if_pos ⟨rfl, Bool.false_ne_true⟩]
        rfl
      · rw [methodMark, posted] at mem
        exact absurd mem (ends (by rw [posted]; rfl) i)
  | none =>
      refine ⟨{ s with outputHandler := some (.resource r) }.setState .ended, ?_, fun i mem => ?_, fun none => ?_⟩
      · rw [if_neg (by simp), selectResource_ref at_url.unselected small (words.resource _ here)]
        simp [posted, Flow.andThen, Parse.setState]
      · rw [methodMark, posted] at mem
        rw [(own_words eq_shaped i).mp mem]
        rfl
      · rw [methodMark, posted] at none
        exact absurd here (none r)

/-- No word is spelled from a place that is not behind a last character. -/
theorem tree_words {t : Ternary} (shaped : t.Shaped) (i : Nat) : ([], i) ∉ t.entries :=
  fun mem => shaped.entry_nonempty _ mem rfl

/-- A space at a character: no word goes on with it. -/
theorem url_space_character {t : Ternary} {tail : List UInt8} (at_url : AtUrl s) (walkable : Walkable t)
    (present : t ≠ .absent) (shaped : t.Shaped) (words : UrlWords p t.entries)
    (blob : s.blob = blobRec t ++ tail) (head : s.blob.head? = some blobCurr) (low : blobCurr < 128)
    (ends : s.request.postData.isSome → ∀ i, ([urlPostEnd], i) ∉ t.entries)
    : ∃ s', parseTurn p s [32] = some (.again s', []) ∧ Selects s t.entries s'.outputHandler := by
  obtain ⟨found, missed⟩ := url_at_character (p := p) (d := 32) (.tree walkable present) at_url.state
    at_url.no_value blob low
  have none : step t 32 = none := by
    cases next : step t 32 with
    | none => rfl
    | some place =>
        obtain ⟨searchable, words'⟩ := (step_finds shaped 32).found place next
        obtain ⟨e, mem⟩ := (step_good walkable next).exists_entry searchable
        exact absurd List.mem_cons_self (words.no_space _ ((words' e.1 e.2).mpr mem))
  refine ⟨{ s with outputHandler := some .http404 }, ?_, fun i mem => ?_, fun _ => rfl⟩
  · rw [parseTurn_url at_url.state at_url.no_boundary head, missed none]
  · rw [methodMark] at mem
    split at mem
    · exact absurd mem (ends ‹_› i)
    · exact absurd mem (tree_words shaped i)

theorem atReference_mark (state : s.request.parsingState = .url)
    : atReference p d urlPostEnd s = Flow.andThen (urlEnd s) (referenceStage p d) := by
  rw [atReference, inputOrReference, state]
  simp [urlPostEnd]

/-- A GET request is refused at the mark of a POST resource. -/
theorem url_mark_get {place : Place} {tail rest : List UInt8} (at_url : AtUrl s) (at_mark : place.AtMark)
    (blob : s.blob = place.bytes ++ tail) (get : s.request.postData.isSome = false)
    : parseTurn p s (d :: rest) = some (.leave { s with outputHandler := some .http404 }, rest) := by
  have none : s.request.postData = none := by simpa using get
  have head : s.blob.head? = some urlPostEnd := by
    cases place with
    | tree t =>
        rw [blob, Place.bytes, List.head?_append, show (blobRec t).head? = some urlPostEnd from at_mark]
        rfl
    | ref => exact at_mark.elim
  rw [parseTurn_url at_url.state at_url.no_boundary head, atReference_mark at_url.state, urlEnd, none]
  rfl

/-- The words that the mark of a POST resource ends. -/
theorem mark_words {r : Nat} {inf eq sup : Ternary}
    (shaped : (Ternary.node [255] (some r) inf eq sup).Shaped) (i : Nat)
    : ([urlPostEnd], i) ∈ (Ternary.node [255] (some r) inf eq sup).entries ↔ i = r := by
  have eq_shaped := shaped.eq_shaped
  have next : step (Ternary.node [255] (some r) inf eq sup) 255 = some (.ref r inf eq sup) := rfl
  exact (((step_finds shaped 255).found _ next).2 [] i).trans (own_words eq_shaped i)

/-- A space at the mark of a POST resource. -/
theorem url_space_mark {r : Nat} {inf eq sup : Ternary} {tail : List UInt8} (at_url : AtUrl s)
    (shaped : (Ternary.node [255] (some r) inf eq sup).Shaped)
    (words : UrlWords p (Ternary.node [255] (some r) inf eq sup).entries)
    (blob : s.blob = blobRec (.node [255] (some r) inf eq sup) ++ tail)
    : ∃ s' flow, parseTurn p s [32] = some (flow, []) ∧ (flow = .again s' ∨ flow = .leave s')
      ∧ Selects s (Ternary.node [255] (some r) inf eq sup).entries s'.outputHandler := by
  have here := (mark_words shaped r).mpr rfl
  have small : r < 127 := words.low _ here
  have array : s.blob = 255 :: (128 + UInt8.ofNat r) :: (links inf eq sup ++ tail) := by
    rw [blob, blobRec_node]
    rfl
  have head : s.blob.head? = some 255 := by rw [array]; rfl
  cases posted : s.request.postData with
  | none =>
      refine ⟨{ s with outputHandler := some .http404 }, _, ?_, .inr rfl, fun i mem => ?_, fun _ => rfl⟩
      · have at_mark : (Place.tree (.node [255] (some r) inf eq sup)).AtMark := by
          rw [Place.AtMark, blobRec_node]
          rfl
        exact url_mark_get at_url at_mark blob (by rw [posted]; rfl)
      · rw [methodMark, posted] at mem
        exact absurd mem (tree_words shaped i)
  | some a =>
      rw [parseTurn_url at_url.state at_url.no_boundary head,
        show (255 : UInt8) = urlPostEnd from rfl, atReference_mark at_url.state, urlEnd, posted]
      let marked : Parse :=
        { s with
          request := { s.request with postUrlDetected := true }
          blob := (128 + UInt8.ofNat r) :: (links inf eq sup ++ tail)
        }
      have turned : Flow.andThen (urlSpace p (128 + UInt8.ofNat r) marked) (afterReference p 32)
          = some (.again (atHeaders marked r)) :=
        urlSpace_marked at_url.unselected small (words.resource _ here)
          (show s.request.postData.isSome by rw [posted]; rfl) rfl at_url.no_value
      refine ⟨atHeaders marked r, .again (atHeaders marked r), ?_, .inl rfl, fun i mem => ?_, fun none => ?_⟩
      · have reads : resourceOrArgument p 32 (128 + UInt8.ofNat r) marked
            = urlSpace p (128 + UInt8.ofNat r) marked := by
          rw [resourceOrArgument, if_pos rfl]
        rw [array]
        simp only [List.drop_succ_cons, List.drop_zero, Parse.reread, List.head?_cons, Option.map_some]
        have flow : Flow.andThen (some (.next (128 + UInt8.ofNat r) marked)) (referenceStage p 32)
            = urlSpace p (128 + UInt8.ofNat r) marked := by
          rw [Flow.andThen, referenceStage, show marked.request.parsingState = .url from at_url.state, reads]
        rw [flow, turned]
      · rw [methodMark, posted] at mem
        rw [(mark_words shaped i).mp mem]
        rfl
      · rw [methodMark, posted] at none
        exact absurd here (none r)

/-- A space after an URL. -/
theorem url_space {place : Place} {tail : List UInt8} (at_url : AtUrl s) (good : place.Good)
    (searchable : place.Searchable) (words : UrlWords p place.entries) (blob : s.blob = place.bytes ++ tail)
    (ends : s.request.postData.isSome → ∀ i, ([urlPostEnd], i) ∈ place.entries →
      place.bytes.head? = some urlPostEnd)
    : ∃ s' flow, parseTurn p s [32] = some (flow, []) ∧ (flow = .again s' ∨ flow = .leave s')
      ∧ Selects s place.entries s'.outputHandler := by
  cases searchable with
  | @ref r inf eq sup eq_shaped =>
      obtain ⟨s', turned, selects⟩ := url_space_ref at_url eq_shaped words blob fun posted i mem => by
        have small := words.low _ ((own_words eq_shaped r).mpr rfl)
        have head := Option.some.inj (ends posted i mem)
        rw [← UInt8.toNat_inj, UInt8.toNat_add, UInt8.toNat_ofNat'] at head
        simp only [UInt8.reduceToNat, Nat.reducePow, urlPostEnd] at head small
        omega
      exact ⟨s', _, turned, .inr rfl, selects⟩
  | @tree t shaped =>
      cases good with
      | tree walkable present =>
      obtain ⟨e, more, string, -⟩ := blobRec_head walkable present
      have head : s.blob.head? = some e := by rw [blob, Place.bytes, string]; rfl
      by_cases low : e < 128
      · obtain ⟨s', turned, selects⟩ := url_space_character at_url walkable present shaped words blob head low
          fun posted i mem => by
            have head := ends posted i mem
            rw [Place.bytes, string] at head
            cases head
            exact absurd low (by decide)
        exact ⟨s', _, turned, .inl rfl, selects⟩
      · -- the mark of a POST resource
        have high : 128 ≤ e := UInt8.not_lt.mp low
        cases walkable with
        | absent => exact absurd rfl present
        | @node s' c ref inf eq sup _ _ _ _ plain _ marked _ _ =>
            rw [blobRec_node] at string
            cases s' with
            | cons x s' =>
                obtain ⟨rfl, -⟩ := List.cons.inj string
                exact absurd (plain x List.mem_cons_self).2 low
            | nil =>
                obtain ⟨rfl, -⟩ := List.cons.inj string
                cases ref with
                | none => exact absurd rfl (marked high)
                | some r =>
                    have next : step (Ternary.node [c] (some r) inf eq sup) c = some (.ref r inf eq sup) := by
                      rw [step_last, if_pos rfl]
                      rfl
                    have here := (((step_finds shaped c).found _ next).2 [] r).mpr
                      ((own_words shaped.eq_shaped r).mpr rfl)
                    obtain rfl : c = 255 := words.mark _ here c List.mem_cons_self high
                    exact url_space_mark at_url shaped words blob

theorem Place.Good.read {place next : Place} (good : place.Good) (read : place.read d = some next)
    : next.Good := by
  cases good with
  | tree walkable => exact step_good walkable read
  | ref _ _ eq_walkable => exact step_good eq_walkable read

theorem UrlWords.next {words words' : List Entry} {c : UInt8} (urls : UrlWords p words)
    (suffixes : ∀ w i, (c :: w, i) ∈ words ↔ (w, i) ∈ words')
    : UrlWords p words' where
  low := fun e mem => urls.low (c :: e.1, e.2) ((suffixes e.1 e.2).mpr mem)
  resource := fun e mem => urls.resource (c :: e.1, e.2) ((suffixes e.1 e.2).mpr mem)
  no_space := fun e mem here => urls.no_space _ ((suffixes e.1 e.2).mpr mem) (List.mem_cons_of_mem c here)
  mark := fun e mem c' here => urls.mark _ ((suffixes e.1 e.2).mpr mem) c' (List.mem_cons_of_mem c here)

theorem AtUrl.moved (at_url : AtUrl s) (blob : List UInt8) : AtUrl { s with blob } :=
  ⟨at_url.state, at_url.unselected, at_url.no_args, at_url.no_value, at_url.unmarked, at_url.no_boundary⟩

theorem AtUrl.unfailed (at_url : AtUrl s) : s.outputHandler.any HandlerRef.isError = false := by
  rw [at_url.unselected]
  rfl

theorem parseLoop_failed {fuel : Nat} {rest : List UInt8} (failed : s.outputHandler = some .http404)
    : parseLoop p (fuel + 1) s rest = some (.done s rest) := by
  have stops : parsing s rest = false := by
    simp [parsing, failed, HandlerRef.isError]
  rw [parseLoop, if_neg (by rw [stops]; exact Bool.false_ne_true)]

theorem parseLoop_nil {fuel : Nat} : parseLoop p (fuel + 1) s [] = some (.done s []) := by
  have stops : parsing s [] = false := by simp [parsing]
  rw [parseLoop, if_neg (by rw [stops]; exact Bool.false_ne_true)]

theorem parseLoop_turns {fuel : Nat} {rest : List UInt8} (unfailed : s.outputHandler.any HandlerRef.isError = false)
    : parseLoop p (fuel + 1) s (d :: rest)
      = match parseTurn p s (d :: rest) with
        | some (.again s, rest) => parseLoop p fuel s rest
        | some (.leave s, rest) => some (.done s rest)
        | some (.quit s, _) => some (.quit s)
        | _ => none := by
  have turns : parsing s (d :: rest) = true := by
    simp [parsing, unfailed]
  rewrite [parseLoop, if_pos turns]
  rfl

/-- By induction on the URL: each byte is a step of the search, and the space selects the resource whose URL
was spelled.
-/
theorem url_selects {fuel : Nat} {place : Place} {tail w : List UInt8} (at_url : AtUrl s)
    (good : place.Good) (searchable : place.Searchable) (words : UrlWords p place.entries)
    (blob : s.blob = place.bytes ++ tail) (no_space : 32 ∉ w)
    (clear : place.ClearAlong s.request.postData.isSome w)
    (ends : s.request.postData.isSome → ∀ place', place.search w = some place' →
      ∀ i, ([urlPostEnd], i) ∈ place'.entries → place'.bytes.head? = some urlPostEnd)
    (enough : w.length + 2 ≤ fuel)
    : ∃ s' rest, parseLoop p fuel s (w ++ [32]) = some (.done s' rest)
      ∧ (∀ i, (w ++ methodMark s, i) ∈ place.entries → s'.outputHandler = some (.resource i))
      ∧ ((∀ i, (w ++ methodMark s, i) ∉ place.entries) → s'.outputHandler = some .http404) := by
  induction w generalizing s fuel place tail with
  | nil =>
      obtain ⟨fuel, rfl⟩ : ∃ fuel', fuel = fuel' + 1 + 1 := ⟨fuel - 2, by simp at enough; omega⟩
      obtain ⟨s', flow, turned, ends, selects⟩ := url_space at_url good searchable words blob
        fun posted => ends posted place rfl
      refine ⟨s', [], ?_, selects.resource, selects.other⟩
      rw [List.nil_append, parseLoop_turns at_url.unfailed, turned]
      rcases ends with rfl | rfl
      · exact parseLoop_nil
      · rfl
  | cons d w ih =>
      rw [List.length_cons] at enough
      obtain ⟨fuel, rfl⟩ : ∃ fuel', fuel = fuel' + 1 + 1 := ⟨fuel - 2, by omega⟩
      rcases clear with ⟨clear_here, clear_next⟩ | ⟨get, at_mark, none⟩
      case inr =>
        -- a GET request at a mark
        refine ⟨{ s with outputHandler := some .http404 }, w ++ [32], ?_, fun i mem => ?_, fun _ => rfl⟩
        · rw [List.cons_append, parseLoop_turns at_url.unfailed, url_mark_get at_url at_mark blob get]
        · rw [methodMark, get, if_neg Bool.false_ne_true, List.append_nil] at mem
          exact absurd mem (none i)
      obtain ⟨found, missed⟩ := url_byte (w ++ [32]) at_url.state at_url.no_boundary at_url.no_value good words.low
        clear_here (fun space => no_space (space ▸ List.mem_cons_self)) (fun _ => at_url.no_args) blob
      obtain ⟨found', missed'⟩ := searchable.read_finds d
      rw [List.cons_append, parseLoop_turns at_url.unfailed]
      cases next : place.read d with
      | none =>
          obtain ⟨s', turned, failed⟩ := missed next
          refine ⟨s', w ++ [32], ?_, fun i mem => absurd mem (missed' next _ i), fun _ => failed⟩
          rw [turned]
          exact parseLoop_failed failed
      | some place' =>
          obtain ⟨tail', turned⟩ := found place' next
          obtain ⟨searchable', suffixes⟩ := found' place' next
          have below : w.length + 2 ≤ fuel + 1 := by omega
          obtain ⟨s', rest, looped, resource, other⟩ := ih (at_url.moved _) (good.read next) searchable'
            (words.next suffixes) rfl (fun mem => no_space (List.mem_cons_of_mem d mem))
            (clear_next place' next) (fun posted place'' found => ends posted place'' (by
              rw [Place.search, next]
              exact found)) below
          refine ⟨s', rest, ?_, fun i mem => resource i ((suffixes _ i).mp mem), fun none => other fun i mem =>
            none i ((suffixes _ i).mpr mem)⟩
          rw [turned]
          exact looped

end Turns

end Smews.Input
