import Smews.Input.Device
import Smews.Library.Partial

/-! The parser that reads the device does what the parser of a list of bytes does, as long as the
device delivers that list.
-/

namespace Smews.Input.Device

open Smews.Core ByteSource Partial

--------------------------------------------------
-- What reading keeps
--------------------------------------------------

section Retains

variable {σ : Type} {src : Source σ} {Q : σ → Prop}

theorem getc_eq (src : Source σ) (r : Reader σ Checksum)
    : getc src r
      = match src.get r.source with
        | (some c, d) => (some c, ⟨d, r.state.add c⟩)
        | (none, d) => (none, ⟨d, r.state⟩) := by
  rw [getc, Reading.bind_apply, Reading.byte_apply]
  rcases src.get r.source with ⟨c | c, d⟩ <;> rfl

variable (kept : ∀ d, Q d → Q (src.get d).2)
include kept

theorem getc_keeps : Retains Q (getc src) :=
  .bind (.byte kept) fun _ => .bind (.modify _) fun _ => .pure _

/-- A property of the source that each read keeps is kept by `dopostin`, by induction on what it
calls.
-/
theorem feed_keeps {post : Addr} {cont : Cont} {h : Heap} {length : UInt16} {r : Reader σ Checksum}
    (start : Q r.source)
    : Ensures (feed src post cont h length r) fun y => Q y.2.2.2.source := by
  induction cont generalizing h length r with
  | ret value => exact .some start
  | outC c k ih => exact .none
  | inC k ih =>
      have after := getc_keeps kept r start
      rw [feed]
      split
      · exact ih none start
      split
      · exact .some start
      split
      · simp_all
      · split
        · exact .none
        · simp_all

theorem resume_keeps {post : Addr} {h : Heap} {length : UInt16} {r : Reader σ Checksum}
    (start : Q r.source)
    : Ensures (resume src post h length r) fun y => Q y.2.2.2.source := by
  have after := getc_keeps kept r start
  rw [resume]
  split
  · refine .ite (fun _ => .none) fun _ => ?_
    split
    · exact feed_keeps kept (by simp_all)
    · split
      · exact .none
      · exact feed_keeps kept (by simp_all)
  · exact .none

theorem runInput_keeps {p : Program} {post : Addr} {h : Heap} {length : UInt16}
    {r : Reader σ Checksum} (start : Q r.source)
    : Ensures (runInput src p post h length r) fun y => Q y.2.2.2.source := by
  rw [runInput]
  split
  · exact .bind .trivial fun _ _ => feed_keeps kept start
  · exact resume_keeps kept start
  · exact .none

theorem runPostData_keeps {p : Program} {post : Addr} {segmentLength x : UInt16} {s : Parse}
    {r : Reader σ Checksum} (start : Q r.source)
    : Ensures (runPostData src p post segmentLength x s r) fun y => Q y.2.2.source := by
  rw [runPostData]
  refine (runInput_keeps kept start).bind ?_
  rintro ⟨fed, heap, length, r⟩ after
  cases fed with
  | suspended frame => exact .some after
  | returned value => exact .map fun _ _ => after

theorem parsePostData_keeps {p : Program} {segmentLength x : UInt16} {s : Parse}
    {r : Reader σ Checksum} (start : Q r.source)
    : Ensures (parsePostData src p segmentLength x s r) fun y => Q y.2.2.source := by
  rw [parsePostData]
  refine Ensures.trivial.bind fun post _ => ?_
  refine .ite (fun _ => .bind .trivial fun _ _ => .some start) fun _ => Ensures.trivial.bind ?_
  rintro ⟨prepared, s⟩ -
  cases prepared
  · exact .some start
  · exact runPostData_keeps kept start

theorem parseTurn_keeps {p : Program} {segmentLength x : UInt16} {s : Parse}
    {r : Reader σ Checksum} (start : Q r.source)
    : Ensures (parseTurn src p segmentLength x s r) fun y => Q y.2.2.source := by
  have after := getc_keeps kept r start
  rw [parseTurn]
  refine Ensures.trivial.bind fun blobCurr _ => ?_
  split
  · exact .some start
  split
  · exact .ite (fun _ => .none) fun _ => parsePostData_keeps kept start
  split
  case h_1 r' got =>
    rw [got] at after
    exact .some after
  case h_2 c r' got =>
    rw [got] at after
    split
    · exact .none
    · exact parsePostData_keeps kept after
    · exact .some after

/-- The source behind the loop. -/
def Parsed.source : Parsed σ → σ
  | .done _ _ r => r.source
  | .quit _ r => r.source

theorem parseLoop_keeps {p : Program} {segmentLength x : UInt16} {fuel : Nat} {s : Parse}
    {r : Reader σ Checksum} (start : Q r.source)
    : Ensures (parseLoop src p segmentLength fuel x s r) fun y => Q y.source := by
  induction fuel generalizing x s r with
  | zero => exact .none
  | succ fuel ih =>
      have turn : Ensures (parseTurn src p segmentLength x s r) fun y => Q y.2.2.source :=
        parseTurn_keeps kept start
      rw [parseLoop]
      split
      · split
        case h_1 got => exact ih (turn _ got)
        case h_2 got => exact .some (turn _ got)
        case h_3 got => exact .some (turn _ got)
        case h_4 => exact .none
      · exact .some start

theorem parseSegment_keeps {p : Program} {q : Request} {heap : Heap} {handler : Option HandlerRef}
    {segmentLength : UInt16} {r : Reader σ Checksum} (start : Q r.source)
    : Ensures (parseSegment src p q heap handler segmentLength r) fun y => Q y.2.source := by
  rw [parseSegment]
  refine Ensures.trivial.bind fun s _ => ?_
  refine (parseLoop_keeps kept start).bind ?_
  rintro (⟨s, x, r⟩ | ⟨s, r⟩) after
  · exact .map fun _ _ => after
  · exact .some after

theorem skip_keeps (n : Nat) : Retains Q (skip src n) := by
  induction n with
  | zero => exact .pure ()
  | succ n ih => exact .bind (getc_keeps kept) fun _ => ih

theorem dropData_keeps {i : Incoming} {x : UInt16} {c : HttpConnection} {heap : Heap}
    {r : Reader σ Checksum} (start : Q r.source)
    : Q (dropData src i x c heap r).2.source := by
  have after := skip_keeps kept (i.segmentLength.toNat - x.toNat) r start
  rw [dropData]
  split
  case h_1 r' got => rwa [got] at after
  case h_2 r' got => rwa [got] at after

end Retains

--------------------------------------------------
-- The loop ends
--------------------------------------------------

section Ends

/-- Some of the bytes are left, and none when the coroutine waits for more. -/
structure Takes (rest : List UInt8) (y : Fed × Heap × List UInt8) : Prop where
  fewer : y.2.2.length ≤ rest.length
  suspended : ∀ frame, y.1 = .suspended frame → y.2.2 = []

theorem feed_takes {post : Addr} {cont : Cont} {h : Heap} {rest : List UInt8}
    : Ensures (Input.feed post cont h rest) (Takes rest) := by
  induction cont generalizing h rest with
  | ret value => exact .some ⟨le_rfl, fun _ eq => nomatch eq⟩
  | outC c k ih => exact .none
  | inC k ih =>
      rw [Input.feed.eq_def]
      dsimp only
      split
      · exact ih none
      split
      · exact .some ⟨le_rfl, fun _ _ => rfl⟩
      case h_2 c rest =>
        split
        · exact .none
        case h_2 taken h _ =>
          exact (ih (some taken) (h := h)).imp fun y takes =>
            ⟨Nat.le_succ_of_le takes.fewer, takes.suspended⟩

theorem runInput_takes {p : Program} {post : Addr} {h : Heap} {rest : List UInt8}
    : Ensures (Input.runInput p post h rest) (Takes rest) := by
  rw [Input.runInput.eq_def]
  dsimp only
  split
  · exact .bind .trivial fun _ _ => feed_takes
  · rw [Input.resume.eq_def]
    split
    · refine .bind .trivial ?_
      rintro ⟨taken, h⟩ -
      exact feed_takes.imp fun y takes => ⟨Nat.le_succ_of_le takes.fewer, takes.suspended⟩
    · exact .none
  · exact .none

/-- What follows a part looks for the next one. -/
theorem finishInput_again {post : Addr} {value : Nat} {s : Parse}
    : Ensures (finishInput post value s) fun flow =>
        ∀ s', flow = .again s' → s'.request.parsingState ≠ .postData := by
  rw [finishInput]
  refine .bind .trivial fun s _ => .bind .trivial fun s _ => ?_
  split
  · exact .some fun _ eq => nomatch eq
  case h_2 b _ =>
    refine .bind .trivial fun pd _ => .bind .trivial fun s _ => ?_
    refine .ite (fun _ => .some fun _ eq => nomatch eq) fun _ => .some ?_
    intro s' eq
    injection eq with eq
    subst eq
    split <;> exact fun eq => nomatch eq

/-- A turn goes on with fewer bytes, or with none, or it leaves the state in which it read none. -/
structure Shrinks (s : Parse) (rest : List UInt8) (y : Flow × List UInt8) : Prop where
  fewer : y.2.length ≤ rest.length
  again : ∀ s', y.1 = .again s' → y.2 = [] ∨ s'.request.parsingState ≠ .postData

theorem parsePostData_shrinks {p : Program} {s : Parse} {rest : List UInt8}
    : Ensures (Input.parsePostData p s rest) (Shrinks s rest) := by
  rw [Input.parsePostData]
  refine .bind .trivial fun post _ => ?_
  refine .ite (fun _ => .bind .trivial fun s _ => .some ⟨le_rfl, ?_⟩) fun _ => .bind .trivial ?_
  · rintro s' ⟨⟩
    exact .inr fun eq => nomatch eq
  rintro ⟨prepared, s⟩ -
  refine .ite (fun _ => ?_) fun _ => .some ⟨le_rfl, fun _ eq => nomatch eq⟩
  rw [Input.runPostData]
  refine runInput_takes.bind ?_
  rintro ⟨fed, heap, rest'⟩ ⟨fewer, suspended⟩
  cases fed with
  | suspended frame => exact .some ⟨fewer, fun _ _ => .inl (suspended frame rfl)⟩
  | returned value =>
      exact .map (finishInput_again.imp fun flow again => ⟨fewer, fun s' eq => .inr (again s' eq)⟩)

/-- The turns that are left are at most this many. -/
def turnsLeft (s : Parse) (rest : List UInt8) : Nat :=
  2 * rest.length + if s.request.parsingState = .postData then 1 else 0

theorem parseTurn_again {p : Program} {s s' : Parse} {rest rest' : List UInt8}
    (turned : Input.parseTurn p s rest = some (.again s', rest'))
    : rest' = [] ∨ turnsLeft s' rest' < turnsLeft s rest := by
  rw [Input.parseTurn, Option.bind_eq_bind, Option.bind_eq_some_iff] at turned
  obtain ⟨blobCurr, -, turned⟩ := turned
  split at turned
  · exact nomatch turned
  split at turned
  case isTrue posting =>
    split at turned
    · exact nomatch turned
    obtain ⟨fewer, again⟩ := parsePostData_shrinks _ turned
    refine (again s' rfl).imp id fun other => ?_
    rw [turnsLeft, turnsLeft, if_neg other, if_pos posting]
    dsimp only at fewer
    omega
  case isFalse reading =>
    right
    have shorter {rest' rest : List UInt8} (fewer : rest'.length ≤ rest.length) (c : UInt8)
        : turnsLeft s' rest' < turnsLeft s (c :: rest) := by
      rw [turnsLeft, turnsLeft, List.length_cons, if_neg reading]
      split <;> omega
    split at turned
    · exact nomatch turned
    case h_2 c rest =>
      split at turned
      · exact nomatch turned
      · exact shorter (parsePostData_shrinks _ turned).fewer c
      · cases turned
        exact shorter le_rfl c

/-- More turns than are left do not change how the loop ends, by induction on the turns. -/
theorem parseLoop_ends {p : Program} {fuel fuel' : Nat} {s : Parse} {rest : List UInt8}
    (enough : turnsLeft s rest < fuel) (enough' : turnsLeft s rest < fuel')
    : Input.parseLoop p fuel s rest = Input.parseLoop p fuel' s rest := by
  induction fuel generalizing fuel' s rest with
  | zero => exact absurd enough (Nat.not_lt_zero _)
  | succ fuel ih =>
      obtain ⟨fuel', rfl⟩ : ∃ n, fuel' = n + 1 := Nat.exists_eq_succ_of_ne_zero (by omega)
      rw [Input.parseLoop, Input.parseLoop]
      split
      case isFalse => rfl
      case isTrue goes =>
        split
        case h_1 s' rest' turned =>
          rcases parseTurn_again turned with rfl | fewer
          · have full : rest ≠ [] := fun none => by simp [none, parsing] at goes
            have some := List.length_pos_iff.mpr full
            rw [turnsLeft] at enough enough'
            obtain ⟨n, rfl⟩ : ∃ n, fuel = n + 1 := Nat.exists_eq_succ_of_ne_zero (by omega)
            obtain ⟨n', rfl⟩ : ∃ n, fuel' = n + 1 := Nat.exists_eq_succ_of_ne_zero (by omega)
            simp [Input.parseLoop, parsing]
          · exact ih (by omega) (by omega)
        case h_2 => rfl
        case h_3 => rfl
        case h_4 => rfl

end Ends

--------------------------------------------------
-- The parser of a list
--------------------------------------------------

/-- The bytes that the loop leaves behind when `cr_prepare` fails. -/
def abandoned (p : Program) : Nat → Parse → List UInt8 → List UInt8
  | 0, _, _ => []
  | fuel + 1, s, rest =>
      if parsing s rest then
        match Input.parseTurn p s rest with
        | some (.again s, rest) => abandoned p fuel s rest
        | some (.quit _, rest) => rest
        | _ => []
      else []

section Follows

variable {σ : Type} (src : Source σ) (dry last : σ → Prop) (total : Checksum)

/-- The bytes of a list are still to be read, and with them the checksum is the one of the
segment.
-/
structure Ahead (r : Reader σ Checksum) (rest : List UInt8) : Prop where
  delivers : Delivers src dry last r.source rest
  sums : r.state.addBytes rest = total

/-- The same end of a coroutine, with the bytes left as a list and as a count. They are some of the
`n` bytes that it was given.
-/
structure FedAlike (n : Nat) (x : Fed × Heap × List UInt8) (y : Fed × Heap × UInt16 × Reader σ Checksum)
    : Prop where
  fed : x.1 = y.1
  heap : x.2.1 = y.2.1
  left : y.2.2.1.toNat = x.2.2.length
  fewer : x.2.2.length ≤ n
  ahead : Ahead src dry last total y.2.2.2 x.2.2

/-- The same end of a turn, with the bytes left as a list and as the counter `x`. -/
structure TurnAlike (segmentLength : UInt16) (a : Flow × List UInt8)
    (b : Flow × UInt16 × Reader σ Checksum)
    : Prop where
  flow : a.1 = b.1
  counted : b.2.1.toNat + a.2.length = segmentLength.toNat
  ahead : Ahead src dry last total b.2.2 a.2

/-- The same end of the loop. -/
inductive LoopAlike (segmentLength : UInt16) (left : List UInt8) : Input.Parsed → Parsed σ → Prop
  | done {s : Parse} {rest : List UInt8} {x : UInt16} {r : Reader σ Checksum}
    (counted : x.toNat + rest.length = segmentLength.toNat) (ahead : Ahead src dry last total r rest)
    : LoopAlike segmentLength left (.done s rest) (.done s x r)
  | quit {s : Parse} {r : Reader σ Checksum} (ahead : Ahead src dry last total r left)
    : LoopAlike segmentLength left (.quit s) (.quit s r)

/-- The same end of the parsing of a segment, with the bytes to be dropped as a list and as the
counter `x`.
-/
inductive SegmentAlike (segmentLength : UInt16) (left : List UInt8)
    : Segmented → (UInt16 × Outcome ⊕ Heap) × Reader σ Checksum → Prop
  | parsed {o : Outcome} {rest : List UInt8} {x : UInt16} {r : Reader σ Checksum}
    (counted : x.toNat + rest.length = segmentLength.toNat) (ahead : Ahead src dry last total r rest)
    : SegmentAlike segmentLength left (.parsed { o with dropped := rest }) (.inl (x, o), r)
  | returned {heap : Heap} {r : Reader σ Checksum} (ahead : Ahead src dry last total r left)
    : SegmentAlike segmentLength left (.returned heap) (.inr heap, r)

variable {src dry last total}

theorem Ahead.getc {r : Reader σ Checksum} {c : UInt8} {rest : List UInt8}
    (ahead : Ahead src dry last total r (c :: rest))
    : (∃ r', getc src r = (some c, r') ∧ Ahead src dry last total r' rest)
      ∨ ∃ r', getc src r = (none, r') ∧ dry r'.source := by
  rw [getc_eq]
  obtain ⟨d', got, delivers⟩ | ⟨d', got, isDry⟩ := ahead.delivers.cons
  · exact .inl ⟨⟨d', r.state.add c⟩, by rw [got], delivers, ahead.sums⟩
  · exact .inr ⟨⟨d', r.state⟩, by rw [got], isDry⟩

/-- A count of bytes when one of them is taken. -/
theorem count_next {length : UInt16} {c : UInt8} {rest : List UInt8}
    (left : length.toNat = (c :: rest).length)
    : length ≠ 0 ∧ (length - 1).toNat = rest.length := by
  have one : 1 ≤ length := by
    rw [UInt16.le_iff_toNat_le]
    simp [left]
  refine ⟨?_, ?_⟩
  · rintro rfl
    simp at left
  · rw [UInt16.toNat_sub_of_le _ _ one, left]
    simp

variable (stays : StaysDry src dry)
include stays

theorem dry_kept (d : σ) (isDry : dry d) : dry (src.get d).2 := (stays d isDry).2

/-- The coroutine is fed alike from a count of bytes and from their list, by induction on what it
calls.
-/
theorem feed_follows {post : Addr} {cont : Cont} {h : Heap} {rest : List UInt8} {length : UInt16}
    {r : Reader σ Checksum} {n : Nat} (left : length.toNat = rest.length) (fewer : rest.length ≤ n)
    (ahead : Ahead src dry last total r rest)
    : Follows (∃ d, dry d) (FedAlike src dry last total n) (fun y => dry y.2.2.2.source)
        (Input.feed post cont h rest) (feed src post cont h length r) := by
  induction cont generalizing h rest length r with
  | ret value => exact .related ⟨rfl, rfl, left, fewer, ahead⟩
  | outC c k ih => exact .undefined
  | inC k ih =>
      rw [Input.feed.eq_def, feed]
      dsimp only
      split
      · exact ih none left fewer ahead
      cases rest with
      | nil =>
          have zero : length = 0 := UInt16.toNat_inj.mp left
          rw [if_pos zero]
          exact .related ⟨rfl, rfl, left, fewer, ahead⟩
      | cons c rest =>
          obtain ⟨positive, left⟩ := count_next left
          rw [if_neg positive]
          obtain ⟨r', got, ahead⟩ | ⟨r', got, isDry⟩ := ahead.getc
          · simp only [got]
            cases takeByte h post c with
            | none => exact .undefined
            | some taken => exact ih (some taken.1) left (Nat.le_of_succ_le fewer) ahead
          · simp only [got]
            exact .escaped ⟨_, isDry⟩ (feed_keeps (dry_kept stays) isDry)

theorem resume_follows {post : Addr} {h : Heap} {rest : List UInt8} {length : UInt16}
    {r : Reader σ Checksum} {n : Nat} (left : length.toNat = rest.length) (fewer : rest.length ≤ n)
    (ahead : Ahead src dry last total r rest)
    : Follows (∃ d, dry d) (FedAlike src dry last total n) (fun y => dry y.2.2.2.source)
        (Input.resume post h rest) (resume src post h length r) := by
  rw [Input.resume.eq_def, resume]
  cases h.sharedStack with
  | empty => exact .undefined
  | outStore _ _ => exact .undefined
  | inResume k =>
      dsimp only
      cases rest with
      | nil =>
          have zero : length = 0 := UInt16.toNat_inj.mp left
          rw [if_pos zero]
          exact .undefined
      | cons c rest =>
          obtain ⟨positive, left⟩ := count_next left
          rw [if_neg positive]
          obtain ⟨r', got, ahead⟩ | ⟨r', got, isDry⟩ := ahead.getc
          · simp only [got]
            cases takeByte h post c with
            | none => exact .undefined
            | some taken => exact feed_follows stays left (Nat.le_of_succ_le fewer) ahead (h := taken.2)
          · simp only [got]
            exact .escaped ⟨_, isDry⟩ (feed_keeps (dry_kept stays) isDry)

theorem runInput_follows {p : Program} {post : Addr} {h : Heap} {rest : List UInt8}
    {length : UInt16} {r : Reader σ Checksum} {n : Nat} (left : length.toNat = rest.length)
    (fewer : rest.length ≤ n) (ahead : Ahead src dry last total r rest)
    : Follows (∃ d, dry d) (FedAlike src dry last total n) (fun y => dry y.2.2.2.source)
        (Input.runInput p post h rest) (runInput src p post h length r) := by
  rw [Input.runInput.eq_def, runInput.eq_def]
  dsimp only
  generalize (h.coroutine (.postData post)).currContext.status = status,
    (h.coroutine (.postData post)).func = func
  cases status with
  | terminated => exact .undefined
  | ready =>
      cases func with
      | postIn handler contentType partNumber filename value =>
          exact .bind_same fun _ _ => feed_follows stays left fewer ahead
      | _ => exact .undefined
  | active =>
      cases func with
      | postIn handler contentType partNumber filename value =>
          exact resume_follows stays left fewer ahead
      | _ => exact .undefined

variable {segmentLength : UInt16}

omit stays in
/-- The bytes that the coroutine is given. -/
theorem count_given {x : UInt16} {before : Nat} (counted : x.toNat + before = segmentLength.toNat)
    : (segmentLength - x).toNat = before := by
  have le : x ≤ segmentLength := by
    rw [UInt16.le_iff_toNat_le]
    omega
  rw [UInt16.toNat_sub_of_le _ _ le]
  omega

omit stays in
/-- The counter `x` is moved on by what the coroutine took. -/
theorem count_taken {x length : UInt16} {before after : Nat}
    (counted : x.toNat + before = segmentLength.toNat) (left : length.toNat = after)
    (fewer : after ≤ before)
    : (x + (segmentLength - x - length)).toNat + after = segmentLength.toNat := by
  have bound := segmentLength.toNat_lt
  have remaining := count_given counted
  have le' : length ≤ segmentLength - x := by
    rw [UInt16.le_iff_toNat_le]
    omega
  rw [UInt16.toNat_add, UInt16.toNat_sub_of_le _ _ le', remaining, left, Nat.mod_eq_of_lt]
  · omega
  · omega

theorem runPostData_follows {p : Program} {post : Addr} {s : Parse} {rest : List UInt8}
    {x : UInt16} {r : Reader σ Checksum} (counted : x.toNat + rest.length = segmentLength.toNat)
    (ahead : Ahead src dry last total r rest)
    : Follows (∃ d, dry d) (TurnAlike src dry last total segmentLength) (fun y => dry y.2.2.source)
        (Input.runPostData p post s rest) (runPostData src p post segmentLength x s r) := by
  have given := count_given counted
  rw [Input.runPostData, runPostData]
  refine (runInput_follows stays given le_rfl ahead).bind ?_ ?_
  · rintro ⟨fed, heap, rest'⟩ ⟨fed', heap', length, r'⟩ ⟨same, same', left, fewer, ahead⟩
    dsimp only at same same' left fewer ahead
    subst same same'
    have counted := count_taken counted left fewer
    cases fed with
    | suspended frame => exact .related ⟨rfl, counted, ahead⟩
    | returned value =>
        dsimp only
        cases finishInput post value { s with heap } with
        | none => exact .undefined
        | some flow => exact .related ⟨rfl, counted, ahead⟩
  · rintro ⟨fed, heap, length, r'⟩ isDry
    cases fed with
    | suspended frame => exact .some isDry
    | returned value => exact .map fun _ _ => isDry

theorem parsePostData_follows {p : Program} {s : Parse} {rest : List UInt8}
    {x : UInt16} {r : Reader σ Checksum} (counted : x.toNat + rest.length = segmentLength.toNat)
    (ahead : Ahead src dry last total r rest)
    : Follows (∃ d, dry d) (TurnAlike src dry last total segmentLength) (fun y => dry y.2.2.source)
        (Input.parsePostData p s rest) (parsePostData src p segmentLength x s r) := by
  rw [Input.parsePostData, parsePostData]
  refine .bind_same fun post _ => ?_
  dsimp only
  split
  · exact .bind_same fun _ _ => .related ⟨rfl, counted, ahead⟩
  refine .bind_same ?_
  rintro ⟨prepared, s⟩ -
  cases prepared with
  | false => exact .related ⟨rfl, counted, ahead⟩
  | true => exact runPostData_follows stays counted ahead

/-- A turn reads its byte, if there is one to read. -/
theorem parseTurn_follows {p : Program} {s : Parse} {rest : List UInt8}
    {x : UInt16} {r : Reader σ Checksum} (counted : x.toNat + rest.length = segmentLength.toNat)
    (some_left : rest ≠ []) (ahead : Ahead src dry last total r rest)
    : Follows (∃ d, dry d) (TurnAlike src dry last total segmentLength) (fun y => dry y.2.2.source)
        (Input.parseTurn p s rest) (parseTurn src p segmentLength x s r) := by
  rw [Input.parseTurn, parseTurn]
  refine .bind_same fun blobCurr _ => ?_
  split
  · exact .related ⟨rfl, counted, ahead⟩
  split
  · split
    · exact .undefined
    · exact parsePostData_follows stays counted ahead
  cases rest with
  | nil => exact absurd rfl some_left
  | cons c rest =>
      have counted : (x + 1).toNat + rest.length = segmentLength.toNat := by
        have bound := segmentLength.toNat_lt
        simp only [List.length_cons] at counted
        rw [UInt16.toNat_add, UInt16.toNat_one, Nat.mod_eq_of_lt (by omega)]
        omega
      dsimp only
      obtain ⟨r', got, ahead⟩ | ⟨r', got, isDry⟩ := ahead.getc
      · rw [got]
        dsimp only
        generalize parseByte p c blobCurr s = flow
        match flow with
        | none => exact .undefined
        | some (.input s) => exact parsePostData_follows stays counted ahead
        | some (.next blobCurr s) => exact .related ⟨rfl, counted, ahead⟩
        | some (.again s) => exact .related ⟨rfl, counted, ahead⟩
        | some (.leave s) => exact .related ⟨rfl, counted, ahead⟩
        | some (.quit s) => exact .related ⟨rfl, counted, ahead⟩
      · rw [got]
        exact .escaped ⟨_, isDry⟩ (.some isDry)

/-- The loop turns alike, by induction on its turns. -/
theorem parseLoop_follows {p : Program} {fuel : Nat} {s : Parse} {rest : List UInt8} {x : UInt16}
    {r : Reader σ Checksum} (counted : x.toNat + rest.length = segmentLength.toNat)
    (ahead : Ahead src dry last total r rest)
    : Follows (∃ d, dry d)
        (LoopAlike src dry last total segmentLength (abandoned p fuel s rest))
        (fun y => dry y.source) (Input.parseLoop p fuel s rest)
        (parseLoop src p segmentLength fuel x s r) := by
  induction fuel generalizing s rest x r with
  | zero => exact .undefined
  | succ fuel ih =>
      have condition : parsing s rest = true
          ↔ x < segmentLength ∧ ¬ s.outputHandler.any HandlerRef.isError := by
        rw [parsing, UInt16.lt_iff_toNat_lt, ← counted]
        simp [List.length_pos_iff_ne_nil]
      rw [Input.parseLoop, parseLoop, abandoned]
      by_cases goes : parsing s rest = true
      · have some_left : rest ≠ [] := by
          rintro rfl
          simp [parsing] at goes
        rw [if_pos goes, if_pos goes, if_pos (condition.mp goes)]
        have turn := parseTurn_follows stays (p := p) (s := s) counted some_left ahead
        generalize parseTurn src p segmentLength x s r = b at turn
        generalize Input.parseTurn p s rest = a at turn
        cases turn with
        | undefined => exact .undefined
        | @related a b alike =>
            obtain ⟨flow, rest'⟩ := a
            obtain ⟨flow', x', r'⟩ := b
            obtain ⟨same, counted', ahead'⟩ := alike
            dsimp only at same counted' ahead'
            subst same
            cases flow with
            | next _ _ => exact .undefined
            | input _ => exact .undefined
            | again s => exact ih counted' ahead'
            | leave s => exact .related (.done counted' ahead')
            | quit s => exact .related (.quit ahead')
        | escaped possible isDry =>
            refine .escaped possible ?_
            split
            case h_1 => exact parseLoop_keeps (dry_kept stays) (isDry _ rfl)
            case h_2 => exact .some (isDry _ rfl)
            case h_3 => exact .some (isDry _ rfl)
            case h_4 => exact .none
      · rw [if_neg goes, if_neg goes, if_neg (mt condition.mpr goes)]
        exact .related (.done counted ahead)

omit stays in
/-- The bytes to be dropped are passed on as they are. -/
theorem finishSegment_dropped (p : Program) (s : Parse) (rest : List UInt8)
    : finishSegment p s rest
      = (finishSegment p s []).map fun o => { o with dropped := rest } := by
  rw [finishSegment, finishSegment]
  cases detectEnd s with
  | none => rfl
  | some s =>
      simp only [Option.bind_eq_bind, Option.bind_some]
      cases s.outputHandler with
      | none => rfl
      | some handler =>
          dsimp only
          split
          · simp only [Option.map_bind, Function.comp_def, Option.map_some]
          · rfl

theorem parseSegment_follows {p : Program} {q : Request} {heap : Heap}
    {handler : Option HandlerRef} {bytes : List UInt8} {r : Reader σ Checksum} {left : List UInt8}
    (length : bytes.length = segmentLength.toNat) (ahead : Ahead src dry last total r bytes)
    (quits : ∀ s, startSegment p q heap handler = some s →
      abandoned p (3 * bytes.length + 3) s bytes = left)
    : Follows (∃ d, dry d) (SegmentAlike src dry last total segmentLength left)
        (fun y => dry y.2.source) (Input.parseSegment p q heap handler bytes)
        (parseSegment src p q heap handler segmentLength r) := by
  rw [Input.parseSegment, parseSegment, ← length]
  refine .bind_same fun s start => ?_
  have counted : (0 : UInt16).toNat + bytes.length = segmentLength.toNat := by simp [length]
  refine (parseLoop_follows stays counted ahead).bind ?_ ?_
  · rintro _ _ (⟨counted, ahead⟩ | ahead)
    case done s rest x r =>
      dsimp only
      rw [finishSegment_dropped p s rest]
      cases finishSegment p s [] with
      | none => exact .undefined
      | some o => exact .related (.parsed (o := o) counted ahead)
    case quit s r =>
      rw [quits _ start] at ahead
      exact .related (.returned ahead)
  · rintro (⟨s, x, r⟩ | ⟨s, r⟩) isDry
    · exact .map fun _ _ => isDry
    · exact .some isDry

end Follows

end Smews.Input.Device
