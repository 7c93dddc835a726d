import Mathlib.Data.List.TakeWhile
import Mathlib.Tactic.Ring
import Smews.Library.HttpMessage
import Smews.Output.Bounds

/-! The response that the segments of a generator make up, and its reading by a client.
-/

namespace Smews.Output

open Smews.Core

--------------------------------------------------
-- The segments of a response
--------------------------------------------------

/-- A byte string cut into pieces of a length, of which the last one may be shorter. -/
def pieces (length : Nat) (bytes : List UInt8) : List (List UInt8) :=
  if bytes = [] ∨ length = 0 then []
  else bytes.take length :: pieces length (bytes.drop length)
termination_by bytes.length
decreasing_by
  rename_i cut
  rw [not_or] at cut
  have := List.length_pos_iff.mpr cut.1
  rw [List.length_drop]
  omega

/-- The payloads after the first one when the contents that are left do not fit it: a chunk for each
piece, and the void chunk.
-/
def laterPayloads (later : Nat) (rest : List UInt8) : List (List UInt8) :=
  (pieces later rest ++ [[]]).map (generatorPayload .none)

/-- The payloads of the segments of a response, where `first` and `later` are the values of
`max_bytes` for the first segment and for the other ones.
-/
def responsePayloads (first later : Nat) (contents : List UInt8) : List (List UInt8) :=
  if contents.length ≤ first then [generatorPayload .standard contents]
  else generatorPayload .chunks (contents.take first) :: laterPayloads later (contents.drop first)

theorem pieces_nil (length : Nat) : pieces length [] = [] := by
  rw [pieces, if_pos (.inl rfl)]

theorem pieces_cons {length : Nat} {bytes : List UInt8} (nonempty : bytes ≠ []) (positive : 0 < length)
    : pieces length bytes = bytes.take length :: pieces length (bytes.drop length) := by
  rw [pieces, if_neg]
  rintro (empty | zero)
  · exact nonempty empty
  · omega

theorem laterPayloads_cons {later : Nat} {rest : List UInt8} (nonempty : rest ≠ [])
    (positive : 0 < later)
    : laterPayloads later rest
      = generatorPayload .none (rest.take later) :: laterPayloads later (rest.drop later) := by
  rw [laterPayloads, pieces_cons nonempty positive]
  rfl

theorem laterPayloads_nil (later : Nat) : laterPayloads later [] = [generatorPayload .none []] := by
  rw [laterPayloads, pieces_nil]
  rfl

theorem laterPayloads_ne_nil (later : Nat) (rest : List UInt8) : laterPayloads later rest ≠ [] := by
  simp [laterPayloads]

/-- The pieces are nonempty, no longer than asked for, and make up the byte string. -/
theorem pieces_spec {length : Nat} (positive : 0 < length) (bytes : List UInt8)
    : (pieces length bytes).flatten = bytes
      ∧ ∀ piece ∈ pieces length bytes, piece ≠ [] ∧ piece.length ≤ length := by
  induction hn : bytes.length using Nat.strong_induction_on generalizing bytes with
  | _ n ih =>
      by_cases empty : bytes = []
      · subst empty
        simp [pieces_nil]
      · have nonempty := List.length_pos_iff.mpr empty
        have less : (bytes.drop length).length < n := by
          rw [List.length_drop]
          omega
        obtain ⟨flatten, each⟩ := ih _ less _ rfl
        rw [pieces_cons empty positive]
        refine ⟨by rw [List.flatten_cons, flatten, List.take_append_drop], fun piece mem => ?_⟩
        rcases List.mem_cons.mp mem with rfl | later
        · refine ⟨fun none => ?_, by rw [List.length_take]; omega⟩
          have := congrArg List.length none
          rw [List.length_take, List.length_nil] at this
          omega
        · exact each piece later

--------------------------------------------------
-- The lengths of its prefixes
--------------------------------------------------

/-- The bytes emitted with the first chunk and `k` other ones. -/
def chunksLength (first later length k : Nat) : Nat :=
  min length (first + k * later) + serviceHeadersSize .chunks + k * serviceHeadersSize .none

/-- No chunk before the void one is such that the response, which begins at a sequence number,
reaches with it the number before that one.
-/
def Unwrapped (first later length : Nat) : Prop :=
  first < length → ∀ k, k = 0 ∨ first + (k - 1) * later < length
    → (chunksLength first later length k + 1) % 4294967296 ≠ 0

theorem Unwrapped.of_le {first later length : Nat} (le : length ≤ first)
    : Unwrapped first later length :=
  fun lt => absurd lt (Nat.not_lt.mpr le)

--------------------------------------------------
-- Digits
--------------------------------------------------

/-- The digits of a number are read back, by induction on their number. -/
theorem foldlM_digits {base : Nat} {digit : Nat → UInt8}
    (value : ∀ d < base, HttpMessage.digitValue (digit d) = some d) (positive : 0 < base) (k n acc : Nat)
    : (digits base digit k n).foldlM (HttpMessage.pushDigit base) acc
      = some (acc * base ^ k + n % base ^ k) := by
  induction k generalizing n with
  | zero => simp [digits, Nat.mod_one]
  | succ k ih =>
      have lt : n % base < base := Nat.mod_lt n positive
      have push : HttpMessage.pushDigit base (acc * base ^ k + n / base % base ^ k) (digit (n % base))
          = some ((acc * base ^ k + n / base % base ^ k) * base + n % base) := by
        rw [HttpMessage.pushDigit, value _ lt, Option.bind_some, if_pos lt]
      rw [digits, List.foldlM_append, ih, Option.bind_eq_bind, Option.bind_some, List.foldlM_cons, push,
        Nat.pow_succ', Nat.mod_mul]
      simp only [Option.bind_eq_bind, Option.bind_some, List.foldlM_nil, Option.pure_def,
        Option.some.injEq]
      ring

theorem digits_ne_nil {base k : Nat} {digit : Nat → UInt8} (positive : 0 < k) (n : Nat)
    : digits base digit k n ≠ [] := by
  intro none
  have := congrArg List.length none
  rw [length_digits, List.length_nil] at this
  omega

theorem mem_digits {base : Nat} {digit : Nat → UInt8} (positive : 0 < base) {k n : Nat} {b : UInt8}
    (mem : b ∈ digits base digit k n)
    : ∃ d < base, b = digit d := by
  induction k generalizing n with
  | zero => cases mem
  | succ k ih =>
      rcases List.mem_append.mp mem with before | last
      · exact ih before
      · exact ⟨n % base, Nat.mod_lt n positive, List.mem_singleton.mp last⟩

/-- The length of a chunk is read back. -/
theorem chunkSize_read {n : Nat} (fits : n < 65536)
    : HttpMessage.SizeRead (digits 16 hexDigit chunkLengthSize) n := by
  have value : ∀ d < 16, HttpMessage.digitValue (hexDigit d) = some d ∧ hexDigit d ≠ 13 := by decide
  constructor
  · rw [HttpMessage.readNumber, if_neg (digits_ne_nil (by decide) n),
      foldlM_digits (fun d lt => (value d lt).1) (by decide), chunkLengthSize, Nat.zero_mul, Nat.zero_add,
      Nat.mod_eq_of_lt (by omega)]
  · intro mem
    obtain ⟨d, lt, eq⟩ := mem_digits (by decide) mem
    exact (value d lt).2 eq.symm

/-- A content length is read back. -/
theorem contentLength_read {n : Nat} (fits : n < 65536)
    : HttpMessage.readNumber 10 (digits 10 decimalDigit contentLengthSize n) = some n := by
  have value : ∀ d < 10, HttpMessage.digitValue (decimalDigit d) = some d := by decide
  rw [HttpMessage.readNumber, if_neg (digits_ne_nil (by decide) n), foldlM_digits value (by decide),
    contentLengthSize, Nat.zero_mul, Nat.zero_add, Nat.mod_eq_of_lt (by omega)]

--------------------------------------------------
-- The reading of a response
--------------------------------------------------

def statusLine : List UInt8 := ascii "HTTP/1.1 200 OK"

def contentTypeLine : List UInt8 := ascii "Content-Type: text/plain"

def codingLine : List UInt8 := ascii "Transfer-Encoding:chunked"

/-- The field that announces a length. -/
def lengthLine (n : Nat) : List UInt8 :=
  ascii "Content-Length:" ++ digits 10 decimalDigit contentLengthSize n

/-- A response whose fields are two lines. -/
theorem decode_fields {line line' : List UInt8} (plain : 13 ∉ line) (plain' : 13 ∉ line')
    (nonempty : line ≠ []) (nonempty' : line' ≠ []) (body : List UInt8)
    : HttpMessage.decode (statusLine ++ 13 :: 10 :: (line ++ 13 :: 10 ::
        (line' ++ 13 :: 10 :: 13 :: 10 :: body)))
      = HttpMessage.decodeBody [line, line'] body := by
  have status : 13 ∉ statusLine := by decide
  have success : (HttpMessage.text "HTTP/1.1 200 ").isPrefixOf statusLine := by decide
  set rest := line ++ 13 :: 10 :: (line' ++ 13 :: 10 :: 13 :: 10 :: body) with rest_eq
  obtain ⟨n, fuel⟩ : ∃ n, rest.length = n + 3 := by
    refine ⟨rest.length - 3, ?_⟩
    simp only [rest_eq, List.length_append, List.length_cons]
    omega
  have fields : HttpMessage.readFields rest.length rest = some ([line, line'], body) := by
    rw [fuel, rest_eq, HttpMessage.readFields_cons plain nonempty,
      HttpMessage.readFields_cons plain' nonempty', HttpMessage.readFields_nil]
    rfl
  rw [HttpMessage.decode, HttpMessage.readLine_append status, Option.bind_eq_bind, Option.bind_some]
  dsimp only
  rw [if_pos success, fields]
  rfl

/-- A response of one segment. -/
theorem decode_standard {contents : List UInt8} (fits : contents.length < 65536)
    : HttpMessage.decode (generatorPayload .standard contents) = some contents := by
  have head : serviceHttpHeader = statusLine ++ 13 :: 10 :: ascii "Content-Length:" := by decide
  have tail : serviceHttpHeaderPart2 = 13 :: 10 :: (contentTypeLine ++ [13, 10, 13, 10]) := by decide
  have bytes : generatorPayload .standard contents
      = statusLine ++ 13 :: 10 :: (lengthLine contents.length ++ 13 :: 10 ::
        (contentTypeLine ++ 13 :: 10 :: 13 :: 10 :: contents)) := by
    rw [generatorPayload, head, tail, lengthLine]
    simp only [List.append_assoc, List.cons_append, List.nil_append]
  have value : ∀ d < 10, decimalDigit d ≠ 13 ∧ decimalDigit d ≠ 32 := by decide
  have digit : ∀ b ∈ digits 10 decimalDigit contentLengthSize contents.length, b ≠ 13 ∧ b ≠ 32 := by
    intro b mem
    obtain ⟨d, lt, rfl⟩ := mem_digits (by decide) mem
    exact value d lt
  have plain : 13 ∉ lengthLine contents.length := by
    intro mem
    rcases List.mem_append.mp mem with name | number
    · exact absurd name (by decide)
    · exact (digit 13 number).1 rfl
  rw [bytes, decode_fields plain (by decide) (by simp [lengthLine, ascii]) (by decide)]
  have number := contentLength_read fits
  have noCoding : HttpMessage.fieldValue "Transfer-Encoding"
      [lengthLine contents.length, contentTypeLine] = none := rfl
  have length : HttpMessage.fieldValue "Content-Length"
      [lengthLine contents.length, contentTypeLine]
      = some ((digits 10 decimalDigit contentLengthSize contents.length).dropWhile (· = 32)) := rfl
  have kept : (digits 10 decimalDigit contentLengthSize contents.length).dropWhile (· = 32)
      = digits 10 decimalDigit contentLengthSize contents.length := by
    rw [List.dropWhile_eq_self_iff]
    intro nonempty
    have := (digit _ (List.getElem_mem nonempty)).2
    simpa using this
  rw [HttpMessage.decodeBody, noCoding]
  dsimp only
  rw [length, kept, Option.bind_eq_bind, Option.bind_some, number, Option.bind_eq_bind, Option.bind_some,
    if_pos rfl]

theorem generatorPayload_none (chunk : List UInt8)
    : generatorPayload .none chunk
      = HttpMessage.encodeChunk (digits 16 hexDigit chunkLengthSize) chunk := rfl

/-- A response in chunks. -/
theorem decode_chunks (first : List UInt8) (rest : List UInt8)
    : HttpMessage.decode (generatorPayload .chunks first ++ rest)
      = HttpMessage.decodeChunks ((generatorPayload .none first ++ rest).length + 1)
        (generatorPayload .none first ++ rest) := by
  have head : serviceHttpHeaderChunked = statusLine ++ 13 :: 10 :: (contentTypeLine ++ 13 :: 10 ::
      (codingLine ++ [13, 10, 13, 10])) := by decide
  have bytes : generatorPayload .chunks first ++ rest
      = statusLine ++ 13 :: 10 :: (contentTypeLine ++ 13 :: 10 ::
        (codingLine ++ 13 :: 10 :: 13 :: 10 :: (generatorPayload .none first ++ rest))) := by
    rw [generatorPayload, generatorPayload, head]
    simp only [List.append_assoc, List.cons_append, List.nil_append]
  rw [bytes, decode_fields (by decide) (by decide) (by decide) (by decide)]
  rfl

variable {first later : Nat} {contents : List UInt8}

/-- The chunks of a response that does not fit one segment. -/
structure Chunked (head : List UInt8) (rest : List (List UInt8)) : Prop where
  sizes : ∀ c ∈ head :: rest, HttpMessage.SizeRead (digits 16 hexDigit chunkLengthSize) c.length
  nonempty : ∀ c ∈ head :: rest, c ≠ []

theorem chunked_pieces (positive : 0 < first) (first_lt : first < 65536) (later_pos : 0 < later)
    (later_lt : later < 65536) (long : first < contents.length)
    : Chunked (contents.take first) (pieces later (contents.drop first)) := by
  have each := (pieces_spec later_pos (contents.drop first)).2
  have length : (contents.take first).length = first := by
    rw [List.length_take]
    omega
  refine ⟨fun c mem => chunkSize_read ?_, fun c mem => ?_⟩
  · rcases List.mem_cons.mp mem with rfl | mem
    · omega
    · have := (each c mem).2
      omega
  · rcases List.mem_cons.mp mem with rfl | mem
    · exact List.length_pos_iff.mp (by omega)
    · exact (each c mem).1

/-- The body of a prefix of the chunks. -/
theorem chunked_body (head : List UInt8) (rest : List (List UInt8))
    : generatorPayload .none head ++ (rest.map (generatorPayload .none)).flatten
      = (head :: rest).flatMap (HttpMessage.encodeChunk (digits 16 hexDigit chunkLengthSize)) := by
  rw [List.flatMap_cons, List.flatMap_def, funext generatorPayload_none]

/-- A client reads the contents back from a response. -/
theorem decode_response (positive : 0 < first) (first_lt : first < 65536) (later_pos : 0 < later)
    (later_lt : later < 65536)
    : HttpMessage.decode (responsePayloads first later contents).flatten = some contents := by
  unfold responsePayloads
  split
  · rw [List.flatten_cons, List.flatten_nil, List.append_nil]
    exact decode_standard (by omega)
  · rename_i long
    have chunked := chunked_pieces positive first_lt later_pos later_lt (Nat.lt_of_not_le long)
    have flatten := (pieces_spec later_pos (contents.drop first)).1
    rw [List.flatten_cons, decode_chunks, laterPayloads, List.map_append, List.flatten_append,
      ← List.append_assoc, chunked_body, List.map_singleton, List.flatten_singleton,
      generatorPayload_none,
      HttpMessage.decodeChunks_chunks (chunkSize_read (by decide)) chunked.sizes chunked.nonempty,
      List.flatten_cons, flatten, List.take_append_drop]

/-- A client refuses a response that lacks some of its segments. -/
theorem decode_prefix (positive : 0 < first) (first_lt : first < 65536) (later_pos : 0 < later)
    (later_lt : later < 65536) {n : Nat} (less : n < (responsePayloads first later contents).length)
    : HttpMessage.decode ((responsePayloads first later contents).take n).flatten = none := by
  cases n with
  | zero => rfl
  | succ n =>
      unfold responsePayloads at less ⊢
      split at less
      · simp at less
      · rename_i long
        have chunked := chunked_pieces positive first_lt later_pos later_lt (Nat.lt_of_not_le long)
        rw [if_neg long, List.take_succ_cons, List.flatten_cons, decode_chunks]
        rw [List.length_cons, laterPayloads, List.length_map, List.length_append,
          List.length_singleton] at less
        have cut : (laterPayloads later (contents.drop first)).take n
            = ((pieces later (contents.drop first)).take n).map (generatorPayload .none) := by
          rw [laterPayloads, ← List.map_take, List.take_append_of_le_length (by omega)]
        rw [cut, chunked_body]
        have mem {c : List UInt8}
            (mem : c ∈ contents.take first :: (pieces later (contents.drop first)).take n)
            : c ∈ contents.take first :: pieces later (contents.drop first) := by
          rcases List.mem_cons.mp mem with rfl | mem
          · exact List.mem_cons_self
          · exact List.mem_cons_of_mem _ (List.mem_of_mem_take mem)
        exact HttpMessage.decodeChunks_unended (fun c at_ => chunked.sizes c (mem at_))
          fun c at_ => chunked.nonempty c (mem at_)

/-- There are enough pieces for all bytes. -/
theorem length_le_pieces {length : Nat} (positive : 0 < length) (bytes : List UInt8)
    : bytes.length ≤ (pieces length bytes).length * length := by
  obtain ⟨flatten, each⟩ := pieces_spec positive bytes
  have total : (pieces length bytes).flatten.length ≤ (pieces length bytes).length * length := by
    generalize pieces length bytes = parts at each
    induction parts with
    | nil => simp
    | cons part parts ih =>
        have := (each part List.mem_cons_self).2
        have := ih fun c mem => each c (List.mem_cons_of_mem _ mem)
        rw [List.flatten_cons, List.length_append, List.length_cons, Nat.add_mul]
        omega
  rwa [flatten] at total

end Smews.Output
