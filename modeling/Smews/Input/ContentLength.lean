import Mathlib.Data.List.Induction
import Mathlib.Data.List.ReduceOption
import Smews.Input.HeaderReading

/-! The content length of a POST request, over the runs of the parser that read its header. -/

namespace Smews.Input

open Smews.Core Smews.Tools Runs

variable {p : Program} {s s' : Parse} {x x' : Parse × List UInt8} {events : List (Option UInt8)}
  {c : UInt8} {n : UInt16} {seen w : Symbol}

--------------------------------------------------
-- Segments
--------------------------------------------------

/-- The parser after the next segment came. -/
structure Resumed (s s' : Parse) : Prop where
  request : s'.request = { s.request with blob := s.blob }
  blob : s'.blob = s.blob
  kept : KeepsPost s.request s.heap s'.heap
  unfailed : s.request.parsingState ≠ .cmd → s.outputHandler.any HandlerRef.isError = false

/-- A request that goes on is stored as the parser left it. -/
theorem finishSegment_unfinished {o : Outcome} (text : readsText s.request.parsingState)
    (finished : finishSegment p s [] = some o) (unfinished : o.request.parsingState ≠ .out)
    : o.request = { s.request with blob := s.blob } ∧ o.heap = s.heap
      ∧ (s.request.parsingState ≠ .cmd → s.outputHandler.any HandlerRef.isError = false) := by
  have no_form : formEnded s = some false := by
    rw [formEnded, if_neg fun state => ?_]
    rw [state] at text
    cases text
  have no_end : s.request.parsingState ≠ .ended := fun state => by
    rw [state] at text
    cases text
  -- a request that ends is reset
  have reset {t : Parse} {selected : Option HandlerRef}
      (cleaned : ((cleanPost p t).bind fun u => (cleanError p u).bind fun v => some
        {
          request := { v.request with parsingState := .out, blob := blobHttpRqt, argRefIndex := 128 }
          heap := v.heap
          selected
          dropped := []
        }) = some o)
      : False := by
    obtain ⟨u, -, cleaned⟩ := Option.bind_eq_some_iff.mp cleaned
    obtain ⟨v, -, same⟩ := Option.bind_eq_some_iff.mp cleaned
    rw [← Option.some.inj same] at unfinished
    exact unfinished rfl
  simp only [finishSegment, detectEnd, no_form, Option.bind_eq_bind, Option.bind_some, Bool.false_or] at finished
  by_cases failed : (s.outputHandler.any HandlerRef.isError && s.request.parsingState != .cmd) = true
  · rw [if_pos failed, Option.bind_some] at finished
    cases handler : s.outputHandler with
    | none =>
        rw [handler] at failed
        cases failed
    | some h =>
        simp only [handler, true_or, if_true] at finished
        exact (reset finished).elim
  · rw [if_neg failed, Option.bind_some] at finished
    have no_error (state : s.request.parsingState ≠ .cmd) : s.outputHandler.any HandlerRef.isError = false := by
      simpa [state] using failed
    cases handler : s.outputHandler with
    | none =>
        simp only [handler, Option.some.injEq] at finished
        rw [← finished]
        exact ⟨rfl, rfl, fun _ => rfl⟩
    | some h =>
        simp only [handler, no_end, false_or] at finished
        split at finished
        · exact (reset finished).elim
        · rw [← Option.some.inj finished]
          exact ⟨rfl, rfl, fun state => handler ▸ no_error state⟩

theorem ReadsOn.resumed {bytes : List UInt8} (text : readsText s.request.parsingState)
    (reads : ReadsOn p (s, []) none (s', bytes))
    : Resumed s s' := by
  cases reads with
  | @segment _ _ o heap handler _ finished unfinished kept started =>
  obtain ⟨request, same, unfailed⟩ := finishSegment_unfinished text finished unfinished
  have begun : s'.request = o.request ∧ s'.blob = o.request.blob ∧ s'.heap = heap := by
    simp only [startSegment, if_neg unfinished] at started
    split at started
    · cases started
      exact ⟨rfl, rfl, rfl⟩
    · simp only [Option.bind_eq_bind, Option.bind_eq_some_iff] at started
      obtain ⟨ref, -, handler', -, same⟩ := started
      rw [← Option.some.inj same]
      exact ⟨rfl, rfl, rfl⟩
  obtain ⟨request', blob, rfl⟩ := begun
  refine ⟨request'.trans request, ?_, ?_, unfailed⟩
  · rw [blob, request]
  · rw [request, same] at kept
    exact kept

theorem Resumed.header (resumed : Resumed s s') (header : InHeader n s) : InHeader n s' := by
  obtain ⟨a, here, length, counts⟩ := header.post
  obtain ⟨post, boundaries⟩ := resumed.kept a here
  refine ⟨?_, a, ?_, ?_, ?_⟩
  · rw [resumed.request]
    exact header.no_value
  · rw [resumed.request]
    exact here
  · rw [post]
    exact length
  · rw [post]
    intro b mem
    rw [boundaries b mem]
    exact counts b mem

theorem Resumed.state (resumed : Resumed s s') : s'.request.parsingState = s.request.parsingState := by
  rw [resumed.request]

theorem Resumed.position (resumed : Resumed s s') (position : HeaderPosition seen s) : HeaderPosition seen s' := by
  have state := resumed.state
  cases position with
  | failed before failed =>
      rw [resumed.unfailed (by rw [before]; exact ParsingState.noConfusion)] at failed
      cases failed
  | word before suffix spelled => exact .word (state.trans before) suffix (resumed.blob ▸ spelled)
  | value before curr valued => exact .value (state.trans before) (resumed.blob ▸ curr) valued
  | mime before spelled => exact .mime (state.trans before) (resumed.blob ▸ spelled)
  | ending before blob => exact .ending (state.trans before) (resumed.blob ▸ blob)

theorem HeaderPosition.text (position : HeaderPosition seen s) : readsText s.request.parsingState = true := by
  cases position with
  | failed state | word state | value state | mime state | ending state =>
      rw [state]
      rfl

--------------------------------------------------
-- Runs
--------------------------------------------------

/-- The bytes that a run reads. -/
def textOf (events : List (Option UInt8)) : List UInt8 := events.reduceOption

/-- A run that reads a text in parts, by induction on it. -/
theorem run_split {σ : Type} {step : σ → Option UInt8 → σ → Prop} {x x' : σ} {events : List (Option UInt8)}
    (run : Run step x events x') (before : List UInt8) {after : List UInt8}
    (text : textOf events = before ++ after)
    : ∃ mid first second, Run step x first mid ∧ textOf first = before ∧ Run step mid second x'
      ∧ textOf second = after := by
  induction run generalizing before with
  | nil s =>
      obtain ⟨rfl, rfl⟩ := List.append_eq_nil_iff.mp text.symm
      exact ⟨s, [], [], .nil s, rfl, .nil s, rfl⟩
  | @cons s mid s' event events first rest ih =>
      cases event with
      | none =>
          obtain ⟨m, e1, e2, run1, text1, run2, text2⟩ := ih before text
          exact ⟨m, none :: e1, e2, .cons first run1, text1, run2, text2⟩
      | some c =>
          cases before with
          | nil => exact ⟨s, [], some c :: events, .nil s, rfl, .cons first rest, text⟩
          | cons d before =>
              rw [textOf, List.reduceOption_cons_of_some, List.cons_append, List.cons.injEq] at text
              obtain ⟨rfl, text⟩ := text
              obtain ⟨m, e1, e2, run1, text1, run2, text2⟩ := ih before text
              refine ⟨m, some c :: e1, e2, .cons first run1, ?_, run2, text2⟩
              rw [textOf, List.reduceOption_cons_of_some]
              exact congrArg _ text1

/-- A step takes a segment or reads a byte. -/
theorem ReadsOn.split {e : Option UInt8} (text : readsText x.1.request.parsingState) (reads : ReadsOn p x e x')
    : (e = none ∧ Resumed x.1 x'.1)
      ∨ ∃ c, e = some c ∧ ReadsOn p (x.1, c :: x'.2) (some c) (x'.1, x'.2) := by
  cases reads with
  | byte goes_on turned => exact .inr ⟨_, rfl, .byte goes_on turned⟩
  | @segment _ _ _ _ _ bytes finished unfinished kept started =>
      exact .inl ⟨rfl, @ReadsOn.resumed _ _ _ bytes text (.segment finished unfinished kept started)⟩

/-- What a segment leaves alone. -/
structure Lasts (P : Parse → Prop) : Prop where
  text : ∀ {s}, P s → readsText s.request.parsingState
  resumed : ∀ {s s'}, Resumed s s' → P s → P s'

/-- A run that reads nothing, by induction on it. -/
theorem silent_run {P : Parse → Prop} (lasts : Lasts P) (run : Run (ReadsHeader p) x events x')
    (text : textOf events = []) (start : P x.1)
    : P x'.1 := by
  induction run with
  | nil => exact start
  | @cons x mid x' event events first rest ih =>
      rcases first.2.split (lasts.text start) with ⟨rfl, resumed⟩ | ⟨c, rfl, -⟩
      · exact ih text (lasts.resumed resumed start)
      · cases text

/-- A run that reads one byte, by induction on it. -/
theorem byte_run {P Q : Parse → Prop} (before : Lasts P) (after : Lasts Q)
    (byte : ∀ {s rest s'}, ¬ HeaderRead s → ReadsOn p (s, c :: rest) (some c) (s', rest) → P s → Q s')
    (run : Run (ReadsHeader p) x events x') (text : textOf events = [c]) (start : P x.1)
    : Q x'.1 := by
  induction run with
  | nil => cases text
  | @cons x mid x' event events first rest ih =>
      rcases first.2.split (before.text start) with ⟨rfl, resumed⟩ | ⟨d, rfl, reads⟩
      · exact ih text (before.resumed resumed start)
      · rw [textOf, List.reduceOption_cons_of_some, List.cons.injEq] at text
        obtain ⟨rfl, text⟩ := text
        exact silent_run after rest text (byte first.1 reads start)

theorem InHeader.lasts {P : Parse → Prop} (text : ∀ {s}, P s → readsText s.request.parsingState)
    (resumed : ∀ {s s'}, Resumed s s' → P s → P s')
    : Lasts fun s => P s ∧ InHeader n s :=
  ⟨fun here => text here.1, fun resume here => ⟨resumed resume here.1, resume.header here.2⟩⟩

/-- A text without the name of the length keeps it, by the history of the run. -/
theorem header_run (run : Run (ReadsHeader p) x events x') (position : HeaderPosition [] x.1)
    (header : InHeader n x.1) (other : ¬ lengthName <:+: (textOf events).map upper)
    : HeaderPosition ((textOf events).map upper) x'.1 ∧ InHeader n x'.1 := by
  let Inv (past : List (Option UInt8)) (x : Parse × List UInt8) : Prop :=
    ¬ lengthName <:+: (textOf past).map upper →
      HeaderPosition ((textOf past).map upper) x.1 ∧ InHeader n x.1
  refine run.invariant_history Inv ?_ (fun _ => ⟨position, header⟩) other
  intro past x event x' inv step other
  rw [textOf, List.reduceOption_append, List.map_append] at other ⊢
  have before : (textOf past).map upper <+: (textOf past).map upper ++ ([event].reduceOption).map upper :=
    List.prefix_append _ _
  obtain ⟨position, header⟩ := inv fun mem => other (mem.trans before.isInfix)
  rcases step.2.split position.text with ⟨rfl, resumed⟩ | ⟨c, rfl, reads⟩
  · rw [show [none].reduceOption = ([] : List UInt8) from rfl, List.map_nil, List.append_nil]
    exact ⟨resumed.position position, resumed.header header⟩
  · rw [show [some c].reduceOption = [c] from rfl, List.map_singleton]
    have stepped := header_step position header step.1
      (fun suffix => other (suffix.isInfix.trans before.isInfix)) reads
    exact ⟨stepped.position, stepped.header header⟩

--------------------------------------------------
-- The line of the content length
--------------------------------------------------

/-- The parser at the beginning of a line. -/
inductive LineStart (s : Parse) : Prop
  | ending (state : s.request.parsingState = .postEnd) (blob : s.blob = [13, 128])
  | restart (state : s.request.parsingState = .postAttributes) (blob : s.blob = blobHttpHeaderContent)

/-- The parser behind a part of the name. -/
structure OnName (w : Symbol) (s : Parse) : Prop where
  state : s.request.parsingState = .postAttributes
  spelled : SpelledAt (attributList.map ascii) w s.blob

/-- The parser in the value of the content length. -/
structure OnLength (s : Parse) : Prop where
  state : s.request.parsingState = .postAttributes
  curr : s.blob.head? = some (attributContentLength + 128)

theorem returned_lasts : Lasts fun s => Returned s ∧ InHeader n s := by
  refine InHeader.lasts (fun returned => ?_) fun resumed returned => ?_
  · cases returned with
    | failed state | ending state | restart state =>
        rw [state]
        rfl
  · cases returned with
    | failed state failed =>
        rw [resumed.unfailed (by rw [state]; exact ParsingState.noConfusion)] at failed
        cases failed
    | ending state blob => exact .ending (resumed.state.trans state) (resumed.blob ▸ blob)
    | restart state blob => exact .restart (resumed.state.trans state) (resumed.blob.trans blob)

theorem lineStart_lasts : Lasts fun s => LineStart s ∧ InHeader n s := by
  refine InHeader.lasts (fun line => ?_) fun resumed line => ?_
  · cases line with
    | ending state | restart state =>
        rw [state]
        rfl
  · cases line with
    | ending state blob => exact .ending (resumed.state.trans state) (resumed.blob.trans blob)
    | restart state blob => exact .restart (resumed.state.trans state) (resumed.blob.trans blob)

theorem onName_lasts : Lasts fun s => OnName w s ∧ InHeader n s := by
  refine InHeader.lasts (fun on_name => ?_) fun resumed on_name => ?_
  · rw [on_name.state]
    rfl
  · exact ⟨resumed.state.trans on_name.state, resumed.blob ▸ on_name.spelled⟩

theorem onLength_lasts : Lasts fun s => OnLength s ∧ InHeader n s := by
  refine InHeader.lasts (fun on_length => ?_) fun resumed on_length => ?_
  · rw [on_length.state]
    rfl
  · exact ⟨resumed.state.trans on_length.state, resumed.blob ▸ on_length.curr⟩

theorem position_lasts : Lasts fun s => HeaderPosition seen s ∧ InHeader n s :=
  InHeader.lasts HeaderPosition.text fun resumed position => resumed.position position

/-- A line feed behind a carriage return. -/
theorem returned_newline {rest : List UInt8} (unread : ¬ HeaderRead s)
    (reads : ReadsOn p (s, 10 :: rest) (some 10) (s', rest)) (here : Returned s ∧ InHeader n s)
    : LineStart s' ∧ InHeader n s' := by
  obtain ⟨returned, header⟩ := here
  cases reads with
  | byte goes_on turned =>
  cases returned with
  | failed _ failed => simp [parsing, failed] at goes_on
  | ending state blob =>
      rcases blob with blob | blob
      · have passed : afterReference p 10 10 s = some (.again { s with blob := [13, 128] }) := by
          simp [afterReference, detectHeaderEnd, state, header.no_value, headerPostEnd, blob]
        rw [turn_text (by rw [state]; rfl) header.counts (by rw [blob]; rfl), atReference, if_pos (by decide),
          Flow.andThen, passed] at turned
        cases turned
        exact ⟨.ending state rfl, header.blob _⟩
      · exact absurd ⟨state, by rw [blob]; rfl⟩ unread
  | restart state blob =>
      have curr : s.blob.head? = some 67 := by rw [blob, blobHttpHeaderContent_head]
      rw [turn_text (by rw [state]; rfl) header.counts curr, atReference, if_pos (by decide), Flow.andThen,
        word_walks state header.no_value (by decide) (by decide), blob] at turned
      cases root_spells (upper 10) with
      | missed walked =>
          rw [walked] at turned
          cases turned
          exact ⟨.restart state rfl, header.blob _⟩
      | found _ _ goes_on =>
          -- no attribute begins with a line feed
          obtain ⟨sym, mem, prefixes⟩ := goes_on
          rcases attribute_starts mem prefixes with start | start | start <;> cases start

/-- The end of a line. -/
theorem newline_run (run : Run (ReadsHeader p) x events x') (text : textOf events = [13, 10])
    (position : HeaderPosition seen x.1) (header : InHeader n x.1) (other : ¬ lengthName <:+ seen)
    : LineStart x'.1 ∧ InHeader n x'.1 := by
  obtain ⟨mid, first, second, run1, text1, run2, text2⟩ := run_split run [13] text
  have returned : Returned mid.1 ∧ InHeader n mid.1 :=
    byte_run position_lasts returned_lasts (fun unread reads here => by
      have stepped := header_step here.1 here.2 unread other reads
      exact ⟨stepped.returned rfl, stepped.header here.2⟩) run1 text1 ⟨position, header⟩
  exact byte_run returned_lasts lineStart_lasts returned_newline run2 text2 returned

theorem lengthName_attribute : lengthName ∈ attributList.map ascii := by decide

theorem lengthName_shortest : ∀ s ∈ attributList.map ascii, s <+: lengthName → s = lengthName := by
  decide

/-- A byte of the name is no carriage return. -/
theorem not_return (prefixes : w ++ [upper c] <+: lengthName) : c ≠ 13 := by
  rintro rfl
  have mem : upper 13 ∈ lengthName :=
    prefixes.subset (List.mem_append_right w (List.mem_singleton_self _))
  revert mem
  decide

/-- The first byte of the name. -/
theorem lineStart_name {rest : List UInt8} (prefixes : [upper c] <+: lengthName)
    (reads : ReadsOn p (s, c :: rest) (some c) (s', rest)) (here : LineStart s ∧ InHeader n s)
    : OnName [upper c] s' ∧ InHeader n s' := by
  obtain ⟨line, header⟩ := here
  have other : c ≠ 13 := not_return (w := []) prefixes
  obtain ⟨blob', walked, spelled⟩ : ∃ blob', walk (upper c) blobHttpHeaderContent.length blobHttpHeaderContent
      = some (some blob') ∧ SpelledAt (attributList.map ascii) [upper c] blob' := by
    cases root_spells (upper c) with
    | found walked spelled => exact ⟨_, walked, spelled⟩
    | missed _ stops => exact absurd prefixes (stops lengthName lengthName_attribute)
  cases reads with
  | byte goes_on turned =>
  cases line with
  | ending state blob =>
      rw [turn_text (by rw [state]; rfl) header.counts (by rw [blob]; rfl), atReference, if_pos (by decide),
        Flow.andThen, ending_walks state header.no_value other (.inr rfl), walked] at turned
      cases turned
      exact ⟨⟨rfl, spelled⟩, header.same rfl rfl ⟨rfl, rfl⟩⟩
  | restart state blob =>
      have curr : s.blob.head? = some 67 := by rw [blob, blobHttpHeaderContent_head]
      rw [turn_text (by rw [state]; rfl) header.counts curr, atReference, if_pos (by decide), Flow.andThen,
        word_walks state header.no_value (by decide) other, blob, walked] at turned
      cases turned
      exact ⟨⟨state, spelled⟩, header.blob _⟩

/-- A further byte of the name. -/
theorem onName_byte {rest : List UInt8} (prefixes : w ++ [upper c] <+: lengthName)
    (reads : ReadsOn p (s, c :: rest) (some c) (s', rest)) (here : OnName w s ∧ InHeader n s)
    : OnName (w ++ [upper c]) s' ∧ InHeader n s' := by
  obtain ⟨⟨state, spelled⟩, header⟩ := here
  cases reads with
  | byte goes_on turned =>
  rcases spelled.next attributes_table with ⟨r, -, symbol, -⟩ | ⟨b, low, curr, spells⟩
  · -- no attribute is a part of the name
    have whole : w = lengthName := lengthName_shortest w (List.mem_of_getElem? symbol)
      ((List.prefix_append w [upper c]).trans prefixes)
    have longer := prefixes.length_le
    rw [whole, List.length_append, List.length_singleton] at longer
    omega
  · rw [turn_text (by rw [state]; rfl) header.counts curr, atReference, if_pos low, Flow.andThen,
      word_walks state header.no_value low (not_return prefixes)] at turned
    cases spells (upper c) with
    | missed _ stops => exact absurd prefixes (stops lengthName lengthName_attribute)
    | found walked spelled' =>
        rw [walked] at turned
        cases turned
        exact ⟨⟨state, spelled'⟩, header.blob _⟩

/-- The rest of the name, by induction on it. -/
theorem name_run {v : List UInt8} (run : Run (ReadsHeader p) x events x') (text : textOf events = v)
    (spells : w ++ v.map upper = lengthName) (here : OnName w x.1 ∧ InHeader n x.1)
    : OnName lengthName x'.1 ∧ InHeader n x'.1 := by
  induction v generalizing w x events with
  | nil =>
      rw [List.map_nil, List.append_nil] at spells
      rw [← spells]
      exact silent_run onName_lasts run text here
  | cons c v ih =>
      obtain ⟨mid, first, second, run1, text1, run2, text2⟩ := run_split run [c] text
      rw [List.map_cons, List.append_cons] at spells
      have on_name : OnName (w ++ [upper c]) mid.1 ∧ InHeader n mid.1 :=
        byte_run onName_lasts onName_lasts
          (fun _ reads => onName_byte (spells ▸ List.prefix_append _ _) reads) run1 text1 here
      exact ih run2 text2 spells on_name

/-- The name at the beginning of a line. -/
theorem lineStart_run {name : List UInt8} (run : Run (ReadsHeader p) x events x') (text : textOf events = name)
    (spells : name.map upper = lengthName) (here : LineStart x.1 ∧ InHeader n x.1)
    : OnLength x'.1 ∧ InHeader n x'.1 := by
  cases name with
  | nil => cases spells
  | cons c v =>
      obtain ⟨mid, first, second, run1, text1, run2, text2⟩ := run_split run [c] text
      have on_name : OnName [upper c] mid.1 ∧ InHeader n mid.1 :=
        byte_run lineStart_lasts onName_lasts
          (fun _ reads => lineStart_name (spells ▸ List.prefix_append [upper c] _) reads) run1 text1 here
      obtain ⟨⟨state, spelled⟩, header⟩ := name_run run2 text2 spells on_name
      exact ⟨⟨state, spelled.symbol attributes_table (i := 1) rfl⟩, header⟩

/-- A byte of the value. -/
theorem onLength_byte {rest : List UInt8} (reads : ReadsOn p (s, c :: rest) (some c) (s', rest))
    (here : OnLength s ∧ InHeader n s)
    : InHeader (lengthAfter c n) s'
      ∧ if c = 13 then s'.request.parsingState = .postEnd ∧ s'.blob = [10, 13, 128] else OnLength s' := by
  obtain ⟨⟨state, curr⟩, header⟩ := here
  cases reads with
  | byte goes_on turned =>
  rw [turn_text (by rw [state]; rfl) header.counts curr, atReference_attributes state (by decide),
    headerAttribute, if_neg (by decide), if_pos (by decide)] at turned
  cases read : contentLength c s with
  | none =>
      rw [read] at turned
      cases turned
  | some u =>
      obtain ⟨header', request, blob, -⟩ := contentLength_read header read
      have state' : u.request.parsingState = .postAttributes := by rw [request, state]
      have curr' : u.blob.head? = some (attributContentLength + 128) := by rw [blob, curr]
      have reread : u.reread = some (.next (attributContentLength + 128) u) := by
        rw [Parse.reread, curr']
        rfl
      rw [read, Option.bind_some, reread, Flow.andThen] at turned
      split
      · rename_i ret
        subst ret
        rw [afterReference_return state' header'.no_value (by decide)] at turned
        cases turned
        exact ⟨header'.same rfl rfl ⟨rfl, rfl⟩, rfl, rfl⟩
      · rename_i other
        have stays : afterReference p c (attributContentLength + 128) u = some (.again u) := by
          simp [afterReference, detectHeaderEnd, state', other, header'.no_value, skipsWalk]
        rw [stays] at turned
        cases turned
        exact ⟨header', state', curr'⟩

/-- The value, by induction on it. -/
theorem onLength_run {v : List UInt8} (run : Run (ReadsHeader p) x events x') (text : textOf events = v)
    (no_return : 13 ∉ v) (here : OnLength x.1 ∧ InHeader n x.1)
    : OnLength x'.1 ∧ InHeader (v.foldl (fun n c => lengthAfter c n) n) x'.1 := by
  induction v generalizing n x events with
  | nil => exact silent_run onLength_lasts run text here
  | cons c v ih =>
      rw [List.mem_cons, not_or] at no_return
      obtain ⟨mid, first, second, run1, text1, run2, text2⟩ := run_split run [c] text
      have on_length : OnLength mid.1 ∧ InHeader (lengthAfter c n) mid.1 :=
        byte_run onLength_lasts onLength_lasts (fun _ reads here => by
          obtain ⟨header, on_length⟩ := onLength_byte reads here
          rw [if_neg fun same => no_return.1 same.symm] at on_length
          exact ⟨on_length, header⟩) run1 text1 here
      exact ih run2 text2 no_return.2 on_length

/-- The end of the value. -/
theorem onLength_end (run : Run (ReadsHeader p) x events x') (text : textOf events = [13])
    (here : OnLength x.1 ∧ InHeader n x.1)
    : HeaderPosition [] x'.1 ∧ InHeader (lengthAfter 13 n) x'.1 :=
  byte_run onLength_lasts position_lasts (fun _ reads here => by
    obtain ⟨header, ending⟩ := onLength_byte reads here
    rw [if_pos rfl] at ending
    exact ⟨.ending ending.1 (.inl ending.2), header⟩) run text here

--------------------------------------------------
-- Numbers
--------------------------------------------------

/-- A line with a content length, up to its end. -/
structure LengthLine where
  name : List UInt8
  beforeColon : List UInt8
  afterColon : List UInt8
  digits : List UInt8
  trailing : List UInt8
  spelled : name.map upper = lengthName
  spaces : ∀ c ∈ beforeColon ++ afterColon ++ trailing, c = 32
  digit : ∀ d ∈ digits, 48 ≤ d ∧ d ≤ 57

/-- A number with more digits. -/
def numberFrom (n : Nat) (digits : List UInt8) : Nat :=
  digits.foldl (fun n d => n * 10 + (d.toNat - 48)) n

namespace LengthLine

variable (line : LengthLine)

def value : List UInt8 := line.beforeColon ++ 58 :: (line.afterColon ++ (line.digits ++ line.trailing))

def bytes : List UInt8 := line.name ++ line.value

/-- The number that the line gives. -/
def number : Nat := numberFrom 0 line.digits

end LengthLine

theorem numberFrom_ge (n : Nat) (digits : List UInt8) : n ≤ numberFrom n digits := by
  induction digits generalizing n with
  | nil => exact Nat.le_refl n
  | cons d digits ih =>
      have := ih (n * 10 + (d.toNat - 48))
      rw [numberFrom, List.foldl_cons]
      rw [numberFrom] at this
      omega

/-- By induction on the digits. -/
theorem numberFrom_lt {m n : Nat} (less : m < n) (digits : List UInt8) : numberFrom m digits < numberFrom n digits := by
  induction digits generalizing m n with
  | nil => exact less
  | cons d digits ih => exact ih (Nat.add_lt_add_right (Nat.mul_lt_mul_of_pos_right less (by decide)) _)

/-- No digit is reached with the number 255, nor the end. -/
def Avoids (n : Nat) (digits : List UInt8) : Prop :=
  ∀ k ≤ digits.length, numberFrom n (digits.take k) ≠ 255

theorem avoids_nil (n : Nat) : Avoids n [] ↔ n ≠ 255 := by
  refine ⟨fun avoids => avoids 0 (Nat.le_refl 0), fun other k _ => ?_⟩
  rw [List.take_nil]
  exact other

theorem avoids_cons (n : Nat) (d : UInt8) (digits : List UInt8)
    : Avoids n (d :: digits) ↔ n ≠ 255 ∧ Avoids (n * 10 + (d.toNat - 48)) digits := by
  refine ⟨fun avoids => ⟨avoids 0 (Nat.zero_le _), fun k le => avoids (k + 1) (Nat.succ_le_succ le)⟩, ?_⟩
  rintro ⟨other, avoids⟩ k le
  cases k with
  | zero => exact other
  | succ k => exact avoids k (Nat.le_of_succ_le_succ le)

theorem lengthAfter_digit {d : UInt8} (digit : 48 ≤ d ∧ d ≤ 57) (n : UInt16)
    : (lengthAfter d n).toNat = ((if n = 255 then 0 else n.toNat) * 10 + (d.toNat - 48)) % 65536 := by
  have other : ¬ (d = 32 ∨ d = 13) := by
    rintro (rfl | rfl)
    · exact absurd digit.1 (by decide)
    · exact absurd digit.1 (by decide)
  have low : (48 : UInt16) ≤ d.toUInt16 := by
    rw [UInt16.le_iff_toNat_le, UInt8.toNat_toUInt16]
    exact UInt8.le_iff_toNat_le.mp digit.1
  rw [lengthAfter, if_neg other, UInt16.toNat_add, UInt16.toNat_mul, UInt16.toNat_sub_of_le _ _ low,
    UInt8.toNat_toUInt16]
  simp only [UInt16.reduceToNat, Nat.reducePow, Nat.mod_add_mod]
  split <;> rfl

theorem lengthAfter_space (n : UInt16) (c : UInt8) (blank : c = 32 ∨ c = 13)
    : lengthAfter c n = if n = 255 then 0 else n := by
  rw [lengthAfter, if_pos blank]

/-- A number is read as it is unless 255 is reached, and as a smaller one otherwise. By induction on the
digits: those behind 255 are read from zero on.
-/
theorem digits_read {digits : List UInt8} (digit : ∀ d ∈ digits, 48 ≤ d ∧ d ≤ 57) {n : UInt16}
    (small : numberFrom n.toNat digits < 65536)
    : (lengthAfter 13 (digits.foldl (fun n c => lengthAfter c n) n)).toNat ≤ numberFrom n.toNat digits
      ∧ ((lengthAfter 13 (digits.foldl (fun n c => lengthAfter c n) n)).toNat = numberFrom n.toNat digits
        ↔ Avoids n.toNat digits) := by
  induction digits generalizing n with
  | nil =>
      rw [avoids_nil, List.foldl_nil, lengthAfter_space n 13 (.inr rfl)]
      show _ ≤ n.toNat ∧ (_ = n.toNat ↔ _)
      split
      · rename_i unset
        rw [unset]
        decide
      · rename_i set
        refine ⟨Nat.le_refl _, iff_of_true rfl fun same => set ?_⟩
        rw [← UInt16.toNat_inj, same]
        rfl
  | cons d digits ih =>
      have ih := ih (fun e mem => digit e (List.mem_cons_of_mem d mem)) (n := lengthAfter d n)
      have read := lengthAfter_digit (digit d List.mem_cons_self) n
      have digit := digit d List.mem_cons_self
      rw [UInt8.le_iff_toNat_le, UInt8.le_iff_toNat_le] at digit
      simp only [UInt8.reduceToNat] at digit
      rw [avoids_cons, List.foldl_cons]
      rw [numberFrom, List.foldl_cons, ← numberFrom] at small ⊢
      by_cases unset : n = 255
      · -- the digits before are forgotten
        have same : n.toNat = 255 := by rw [unset]; rfl
        rw [if_pos unset] at read
        have forgotten : (lengthAfter d n).toNat < n.toNat * 10 + (d.toNat - 48) := by omega
        have less := numberFrom_lt forgotten digits
        obtain ⟨le, -⟩ := ih (Nat.lt_trans less small)
        exact ⟨by omega, iff_of_false (by omega) fun avoids => avoids.1 same⟩
      · have set : n.toNat ≠ 255 := fun same => unset (by rw [← UInt16.toNat_inj, same]; rfl)
        have ge := numberFrom_ge (n.toNat * 10 + (d.toNat - 48)) digits
        rw [if_neg unset, Nat.mod_eq_of_lt (by omega)] at read
        rw [read] at ih
        obtain ⟨le, iff⟩ := ih small
        exact ⟨le, iff.trans (and_iff_right set).symm⟩

theorem avoids_concat (n : Nat) (digits : List UInt8) (d : UInt8)
    : Avoids n (digits ++ [d]) ↔ Avoids n digits ∧ numberFrom n (digits ++ [d]) ≠ 255 := by
  have length : (digits ++ [d]).length = digits.length + 1 := by
    rw [List.length_append, List.length_singleton]
  constructor
  · intro avoids
    refine ⟨fun k le => ?_, ?_⟩
    · have earlier := avoids k (by omega)
      rwa [List.take_append_of_le_length le] at earlier
    · have whole := avoids (digits ++ [d]).length (Nat.le_refl _)
      rwa [List.take_length] at whole
  · rintro ⟨avoids, whole⟩ k le
    rcases Nat.lt_or_ge digits.length k with beyond | within
    · rwa [List.take_of_length_le (by omega)]
    · rw [List.take_append_of_le_length within]
      exact avoids k within

/-- The numbers reached before the end are the quotients by powers of ten, by induction on the digits. -/
theorem avoids_quotients {digits : List UInt8} (digit : ∀ d ∈ digits, 48 ≤ d ∧ d ≤ 57)
    : Avoids 0 digits ↔ ∀ j, numberFrom 0 digits / 10 ^ j ≠ 255 := by
  induction digits using List.reverseRecOn with
  | nil =>
      rw [avoids_nil]
      refine iff_of_true (by decide) fun j => ?_
      rw [show numberFrom 0 [] = 0 from rfl, Nat.zero_div]
      decide
  | append_singleton digits d ih =>
      rw [avoids_concat, ih fun e mem => digit e (List.mem_append_left _ mem)]
      have digit := digit d (List.mem_append_right _ (List.mem_singleton_self d))
      rw [UInt8.le_iff_toNat_le, UInt8.le_iff_toNat_le] at digit
      simp only [UInt8.reduceToNat] at digit
      have tenth : numberFrom 0 (digits ++ [d]) / 10 = numberFrom 0 digits := by
        rw [numberFrom, List.foldl_append, List.foldl_cons, List.foldl_nil, ← numberFrom]
        omega
      have further (j : Nat) : numberFrom 0 (digits ++ [d]) / 10 ^ (j + 1) = numberFrom 0 digits / 10 ^ j := by
        rw [Nat.pow_succ, Nat.mul_comm, ← Nat.div_div_eq_div_mul, tenth]
      constructor
      · rintro ⟨earlier, whole⟩ j
        cases j with
        | zero =>
            rw [Nat.pow_zero, Nat.div_one]
            exact whole
        | succ j =>
            rw [further]
            exact earlier j
      · intro avoids
        refine ⟨fun j => further j ▸ avoids (j + 1), ?_⟩
        have whole := avoids 0
        rwa [Nat.pow_zero, Nat.div_one] at whole

/-- The numbers below 65535 that are read as they are. -/
theorem avoids_iff {digits : List UInt8} (digit : ∀ d ∈ digits, 48 ≤ d ∧ d ≤ 57)
    (small : numberFrom 0 digits < 65535)
    : Avoids 0 digits ↔ numberFrom 0 digits ≠ 255 ∧ numberFrom 0 digits / 10 ≠ 255
      ∧ numberFrom 0 digits / 100 ≠ 255 := by
  rw [avoids_quotients digit]
  constructor
  · intro avoids
    have whole := avoids 0
    rw [Nat.pow_zero, Nat.div_one] at whole
    exact ⟨whole, avoids 1, avoids 2⟩
  · rintro ⟨whole, tenth, hundredth⟩ j
    match j with
    | 0 => rwa [Nat.pow_zero, Nat.div_one]
    | 1 => exact tenth
    | 2 => exact hundredth
    | j + 3 =>
        have thousandth : numberFrom 0 digits / 10 ^ 3 < 255 := by omega
        have le : numberFrom 0 digits / 10 ^ (j + 3) ≤ numberFrom 0 digits / 10 ^ 3 :=
          Nat.div_le_div_left (Nat.pow_le_pow_right (n := 10) (by decide) (by omega : 3 ≤ j + 3)) (by decide)
        exact Nat.ne_of_lt (Nat.lt_of_le_of_lt le thousandth)

/-- The spaces behind a number. -/
theorem spaces_read {spaces : List UInt8} (blank : ∀ c ∈ spaces, c = 32) (n : UInt16)
    : lengthAfter 13 (spaces.foldl (fun n c => lengthAfter c n) n) = lengthAfter 13 n := by
  induction spaces generalizing n with
  | nil => rfl
  | cons c spaces ih =>
      rw [List.foldl_cons, ih fun e mem => blank e (List.mem_cons_of_mem c mem), blank c List.mem_cons_self]
      rw [lengthAfter_space _ 13 (.inr rfl), lengthAfter_space n 32 (.inl rfl), lengthAfter_space n 13 (.inr rfl)]
      by_cases unset : n = 255
      · rw [if_pos unset, if_neg (by decide)]
      · rw [if_neg unset, if_neg unset]

/-- The spaces before a number. -/
theorem spaces_before {spaces : List UInt8} (blank : ∀ c ∈ spaces, c = 32) {n : UInt16} (set : n ≠ 255)
    : spaces.foldl (fun n c => lengthAfter c n) n = n := by
  induction spaces with
  | nil => rfl
  | cons c spaces ih =>
      rw [List.foldl_cons, blank c List.mem_cons_self, lengthAfter_space n 32 (.inl rfl), if_neg set]
      exact ih fun e mem => blank e (List.mem_cons_of_mem c mem)

/-- The whole line: the colon brings the length to zero, and then the digits are read. -/
theorem LengthLine.read (line : LengthLine)
    : lengthAfter 13 (line.value.foldl (fun n c => lengthAfter c n) 0xffff)
      = lengthAfter 13 (line.digits.foldl (fun n c => lengthAfter c n) 0) := by
  have blank {spaces : List UInt8} (sub : spaces ⊆ line.beforeColon ++ line.afterColon ++ line.trailing)
      : ∀ c ∈ spaces, c = 32 :=
    fun c mem => line.spaces c (sub mem)
  have before : ∀ c ∈ line.beforeColon, c = 32 := blank (by simp)
  have after : ∀ c ∈ line.afterColon, c = 32 := blank (by simp)
  have trailing : ∀ c ∈ line.trailing, c = 32 := blank (by simp)
  rw [LengthLine.value, List.foldl_append, spaces_before before (by decide), List.foldl_cons,
    show lengthAfter 58 0xffff = 0 by decide, List.foldl_append, spaces_before after (by decide),
    List.foldl_append, spaces_read trailing]

theorem LengthLine.no_return (line : LengthLine) : 13 ∉ line.value := by
  intro mem
  have blank (here : (13 : UInt8) ∈ line.beforeColon ++ line.afterColon ++ line.trailing) : False :=
    absurd (line.spaces 13 here) (by decide)
  simp only [LengthLine.value, List.mem_append, List.mem_cons] at mem
  rcases mem with here | here | here | here | here
  · exact blank (by simp [here])
  · cases here
  · exact blank (by simp [here])
  · exact absurd (line.digit 13 here).1 (by decide)
  · exact blank (by simp [here])

--------------------------------------------------
-- The request line
--------------------------------------------------

/-- The parser in a request line: a POST request has no length yet. -/
structure InRequestLine (s : Parse) : Prop where
  state : s.request.parsingState = .cmd ∨ s.request.parsingState = .url
  unposted : s.request.parsingState = .cmd → s.request.postData = none
  fresh : ∀ a ∈ s.request.postData,
    (s.heap.postData a).contentLength = 0xffff ∧ (s.heap.postData a).boundary = none

/-- The parser at the beginning of the headers of a POST request. -/
structure AtHeader (s : Parse) : Prop where
  state : s.request.parsingState = .postAttributes
  root : s.blob = blobHttpHeaderContent
  fresh : InHeader 0xffff s

section RequestLine

variable {t : Parse} {b : UInt8}

theorem InRequestLine.same (line : InRequestLine s) (state : t.request.parsingState = s.request.parsingState)
    (post : t.request.postData = s.request.postData) (same : SamePosts s.heap t.heap)
    : InRequestLine t := by
  refine ⟨?_, ?_, ?_⟩
  · rw [state]
    exact line.state
  · rw [state, post]
    exact line.unposted
  · rw [post, same.postData]
    exact line.fresh

/-- What a stage of the request line leaves before the walk. -/
inductive LineFlow (c : UInt8) : Option Flow → Prop
  | next {b : UInt8} {t : Parse} (line : InRequestLine t) : LineFlow c (some (.next b t))
  | again {t : Parse} (line : InRequestLine t) : LineFlow c (some (.again t))
  | headers {b : UInt8} {t : Parse} (state : t.request.parsingState = .postAttributes)
    (root : t.blob = blobHttpHeaderContent) (curr : t.blob.head? = some b) (space : c = 32)
    (fresh : ∃ a, t.request.postData = some a ∧ (t.heap.postData a).contentLength = 0xffff
      ∧ (t.heap.postData a).boundary = none)
    : LineFlow c (some (.next b t))
  | leave (t : Parse) : LineFlow c (some (.leave t))
  | undefined : LineFlow c none

theorem LineFlow.reread (line : InRequestLine t) : LineFlow c t.reread := by
  cases read : t.reread with
  | none => exact .undefined
  | some flow =>
      obtain ⟨b, -, rfl⟩ := reread_eq_some read
      exact .next line

theorem command_flow (line : InRequestLine s) (state : s.request.parsingState = .cmd)
    : LineFlow c (command p b s) := by
  unfold command
  split
  · rcases eq : s.heap.memAlloc p.sizeofPostData with ⟨new, heap⟩
    cases new with
    | none => exact .leave _
    | some a =>
        refine .reread ⟨.inr rfl, fun cmd => (nomatch cmd), fun a' mem => ?_⟩
        obtain rfl : a = a' := Option.some.inj mem
        show ((Heap.setPostData _ a _).postData a).contentLength = _
          ∧ ((Heap.setPostData _ a _).postData a).boundary = _
        rw [setPostData_self]
        exact ⟨rfl, rfl⟩
  · have none : s.request.postData = none := line.unposted state
    refine .reread ⟨.inr rfl, fun cmd => (nomatch cmd), fun a mem => ?_⟩
    rw [show (s.setState .url).request.postData = s.request.postData from rfl, none] at mem
    cases mem

theorem urlSpace_flow (line : InRequestLine s) (space : c = 32) : LineFlow c (urlSpace p b s) := by
  unfold urlSpace
  split
  · exact .leave _
  simp only [Option.bind_eq_bind]
  cases selectResource p b s with
  | none => exact .undefined
  | some handler =>
      rw [Option.bind_some]
      cases posted : s.request.postData with
      | none =>
          simp only [Option.isSome_none, Bool.false_eq_true, if_false]
          exact .leave _
      | some a =>
          simp only [Option.isSome_some, if_true, Parse.reread]
          rw [blobHttpHeaderContent_head]
          exact .headers rfl rfl blobHttpHeaderContent_head space ⟨a, rfl, line.fresh a posted⟩

theorem beginArgs_flow (line : InRequestLine s) : LineFlow c (beginArgs p b s) := by
  unfold beginArgs
  simp only [Option.bind_eq_bind]
  cases selectResource p b s with
  | none => exact .undefined
  | some handler =>
      rw [Option.bind_some]
      split
      · exact .reread (line.same rfl rfl ⟨rfl, rfl⟩)
      · rcases eq : s.heap.memAlloc (p.handler handler).args.argsSize with ⟨new, heap⟩
        have alloc := samePosts_of_alloc eq
        cases new with
        | none => exact .leave _
        | some a => exact .again (line.same rfl rfl (alloc.trans (samePosts_chars heap _)))

theorem beginValue_flow {a : Addr} (line : InRequestLine s) : LineFlow c (beginValue p b a s) := by
  unfold beginValue
  simp only [Option.bind_eq_bind]
  cases argRef p s (b - 128) with
  | none => exact .undefined
  | some ref =>
      rw [Option.bind_some]
      split
      · rcases poked : s.heap.poke a (ref.argOffset.toNat + ref.argSize.toNat - 1 : Int) (ref.argSize - 1) with
          _ | heap
        · exact .undefined
        · exact .again (line.same rfl rfl (samePosts_poke poked))
      · exact .again (line.same rfl rfl ⟨rfl, rfl⟩)

theorem resourceOrArgument_flow (line : InRequestLine s) : LineFlow c (resourceOrArgument p c b s) := by
  unfold resourceOrArgument
  split
  · exact urlSpace_flow line ‹_›
  split
  · exact beginArgs_flow line
  split
  · exact .undefined
  · exact beginValue_flow line
  · split
    · simp only [Option.bind_eq_bind]
      cases s.outputHandler with
      | none => exact .undefined
      | some handler => exact .reread (line.same rfl rfl ⟨rfl, rfl⟩)
    · exact .reread (line.same rfl rfl ⟨rfl, rfl⟩)

theorem storeValue_same {ref : ArgRef} {a : Addr} (stored : storeValue ref c a s = some t)
    : t.request = s.request ∧ SamePosts s.heap t.heap := by
  unfold storeValue at stored
  simp only [Option.bind_eq_bind] at stored
  split at stored
  · split at stored
    · cases stored
      exact ⟨rfl, rfl, rfl⟩
    · obtain ⟨heap1, first, stored⟩ := Option.bind_eq_some_iff.mp stored
      obtain ⟨heap2, second, same⟩ := Option.bind_eq_some_iff.mp stored
      cases same
      exact ⟨rfl, (samePosts_poke first).trans (samePosts_poke second)⟩
  · obtain ⟨heap1, first, same⟩ := Option.bind_eq_some_iff.mp stored
    cases same
    exact ⟨rfl, samePosts_poke first⟩
  · obtain ⟨heap1, first, stored⟩ := Option.bind_eq_some_iff.mp stored
    obtain ⟨heap2, second, same⟩ := Option.bind_eq_some_iff.mp stored
    cases same
    exact ⟨rfl, (samePosts_poke first).trans (samePosts_poke second)⟩

/-- How a turn in a request line ends. -/
inductive LineTurn : Option Flow → Prop
  | again {t : Parse} (line : InRequestLine t) : LineTurn (some (.again t))
  | headers {t : Parse} (header : AtHeader t) : LineTurn (some (.again t))
  | leave (t : Parse) : LineTurn (some (.leave t))
  | undefined : LineTurn none

/-- The walk, or the value of an argument. -/
theorem InRequestLine.turn (line : InRequestLine s) : LineTurn (afterReference p c b s) := by
  have no_attributes : s.request.parsingState ≠ .postAttributes := by
    rcases line.state with state | state <;> rw [state] <;> exact ParsingState.noConfusion
  have no_end : s.request.parsingState ≠ .postEnd := by
    rcases line.state with state | state <;> rw [state] <;> exact ParsingState.noConfusion
  have detected : detectHeaderEnd c b s = s := by
    simp [detectHeaderEnd, no_attributes, no_end]
  unfold afterReference
  simp only [detected, no_end, false_and, if_false]
  split
  · unfold argumentValue
    simp only [Option.bind_eq_bind]
    split
    · cases s.outputHandler with
      | none => exact .undefined
      | some handler => exact .again (line.same rfl rfl ⟨rfl, rfl⟩)
    split
    · exact .leave _
    cases argRef p s s.request.argRefIndex with
    | none => exact .undefined
    | some ref =>
        rw [Option.bind_some]
        split
        · cases stored : storeValue ref c _ s with
          | none => exact .undefined
          | some t =>
              obtain ⟨request, same⟩ := storeValue_same stored
              exact .again (line.same (by rw [request]) (by rw [request]) same)
        · exact .undefined
  split
  · exact .again line
  · unfold walkBlob
    simp only [no_attributes, false_and, if_false]
    split
    · exact .undefined
    · exact .again (line.same rfl rfl ⟨rfl, rfl⟩)
    · exact .again (line.same rfl rfl ⟨rfl, rfl⟩)

/-- The walk behind a stage of the request line. -/
theorem LineFlow.turn {flow : Option Flow} (flows : LineFlow c flow)
    : LineTurn (Flow.andThen flow (afterReference p c)) := by
  cases flows with
  | next line => exact line.turn
  | again line => exact .again line
  | leave t => exact .leave t
  | undefined => exact .undefined
  | @headers b t state root curr space fresh =>
      subst space
      show LineTurn (afterReference p 32 b t)
      by_cases no_value : t.request.argRefIndex = 128
      · have low : b < 128 := by
          rw [root, blobHttpHeaderContent_head] at curr
          cases curr
          decide
        have walked : walk (upper 32) blobHttpHeaderContent.length blobHttpHeaderContent = some none :=
          blobHttpHeaderContent_space.2
        rw [word_walks state no_value low (by decide), root, walked]
        obtain ⟨a, posted, length, boundary⟩ := fresh
        refine .headers ⟨state, rfl, no_value, a, posted, length, fun b mem => ?_⟩
        rw [show _ = none from boundary] at mem
        cases mem
      · have ended : afterReference p 32 b t = argumentValue p 32 t := by
          simp [afterReference, detectHeaderEnd, state, no_value]
        rw [ended, argumentValue, if_neg (by decide), if_pos rfl]
        exact .leave _

/-- A byte of a request line. -/
theorem requestLine_step {rest : List UInt8} (line : InRequestLine s)
    (reads : ReadsOn p (s, c :: rest) (some c) (s', rest))
    : InRequestLine s' ∨ AtHeader s' := by
  cases reads with
  | byte goes_on turned =>
  have counts : s.boundary.any Boundary.readyToCount = false := by
    rw [Parse.boundary, Parse.post]
    cases posted : s.request.postData with
    | none => rfl
    | some a => simp [(line.fresh a posted).2]
  have text : readsText s.request.parsingState := by
    rcases line.state with state | state <;> rw [state] <;> rfl
  have no_end : s.request.parsingState ≠ .postEnd := by
    rcases line.state with state | state <;> rw [state] <;> exact ParsingState.noConfusion
  have no_data : s.request.parsingState ≠ .postData := by
    rcases line.state with state | state <;> rw [state] <;> exact ParsingState.noConfusion
  cases curr : s.blob.head? with
  | none =>
      rw [parseTurn, curr] at turned
      cases turned
  | some b =>
      have flows : LineFlow c (atReference p c b s) := by
        rw [atReference]
        split
        · exact .next line
        rw [inputOrReference, if_neg no_data]
        rcases line.state with state | state
        · rw [state, if_neg fun url => ParsingState.noConfusion url.1, referenceStage, state]
          exact command_flow line state
        · split
          · -- the mark of a POST resource
            rw [urlEnd]
            cases posted : s.request.postData with
            | none => exact .leave _
            | some a =>
                dsimp only
                cases read : Parse.reread _ with
                | none => exact .undefined
                | some flow =>
                    obtain ⟨b', -, rfl⟩ := reread_eq_some read
                    rw [Flow.andThen, referenceStage, state]
                    exact resourceOrArgument_flow (line.same state.symm rfl ⟨rfl, rfl⟩)
          · rw [referenceStage, state]
            exact resourceOrArgument_flow line
      have ends := flows.turn (p := p)
      rw [turn_text text counts curr] at turned
      revert turned ends
      generalize Flow.andThen (atReference p c b s) (afterReference p c) = flow
      intro turned ends
      cases ends with
      | again line =>
          cases turned
          exact .inl line
      | headers header =>
          cases turned
          exact .inr header
      | leave t => cases turned
      | undefined => cases turned

theorem Resumed.requestLine (resumed : Resumed s s') (line : InRequestLine s) : InRequestLine s' := by
  refine ⟨?_, fun state => ?_, fun a mem => ?_⟩
  · rw [resumed.state]
    exact line.state
  · rw [resumed.request]
    exact line.unposted (resumed.state.symm.trans state)
  · rw [resumed.request] at mem
    obtain ⟨same, -⟩ := resumed.kept a mem
    rw [same]
    exact line.fresh a mem

/-- The request line of a POST request, by induction on the run: it stops where its headers begin. -/
theorem requestLine_run (run : Run (ReadsUrl p) x events x') (line : InRequestLine x.1)
    : InRequestLine x'.1 ∨ AtHeader x'.1 := by
  refine run.invariant (fun x => InRequestLine x.1 ∨ AtHeader x.1) ?_ (.inl line)
  intro x event x' inv step
  rcases inv with line | header
  · have text : readsText x.1.request.parsingState := by
      rcases line.state with state | state <;> rw [state] <;> rfl
    rcases step.2.split text with ⟨-, resumed⟩ | ⟨c, -, reads⟩
    · exact .inl (resumed.requestLine line)
    · exact requestLine_step line reads
  · exact absurd header.state step.1

/-- A new request begins with its line. -/
theorem startSegment_requestLine {r : Request} {heap : Heap} {handler : Option HandlerRef}
    (fresh : r.parsingState = .out) (started : startSegment p r heap handler = some s)
    : InRequestLine s := by
  simp only [startSegment, fresh, if_true] at started
  rw [if_pos (show (newRequest r).argRefIndex = 128 from rfl)] at started
  cases started
  exact ⟨.inl rfl, fun _ => rfl, fun a mem => nomatch mem⟩

end RequestLine

end Smews.Input
