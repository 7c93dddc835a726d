import Mathlib.Data.List.Basic

/-! The framing of HTTP/1.1 responses: the header fields, and the body that they announce. A body
has a content length, or it comes in chunks up to an empty one.
-/

namespace HttpMessage

--------------------------------------------------
-- Reading
--------------------------------------------------

/-- The bytes of a text. -/
def text (s : String) : List UInt8 := s.toList.map fun c => UInt8.ofNat c.toNat

def crlf : List UInt8 := [13, 10]

/-- The bytes before the first end of a line, and those after it. -/
def readLine : List UInt8 → Option (List UInt8 × List UInt8)
  | [] => none
  | 13 :: 10 :: rest => some ([], rest)
  | b :: rest => (readLine rest).map fun (line, rest) => (b :: line, rest)

/-- The value of a digit, which may be hexadecimal. -/
def digitValue (b : UInt8) : Option Nat :=
  if 48 ≤ b ∧ b ≤ 57 then some (b.toNat - 48)
  else if 97 ≤ b ∧ b ≤ 102 then some (b.toNat - 87)
  else if 65 ≤ b ∧ b ≤ 70 then some (b.toNat - 55)
  else none

/-- One more digit of a number. -/
def pushDigit (base n : Nat) (b : UInt8) : Option Nat :=
  (digitValue b).bind fun d => if d < base then some (n * base + d) else none

/-- The number that a nonempty string of digits denotes. -/
def readNumber (base : Nat) (digits : List UInt8) : Option Nat :=
  if digits = [] then none else digits.foldlM (pushDigit base) 0

/-- The lines before the first empty one, and the bytes after it. -/
def readFields : Nat → List UInt8 → Option (List (List UInt8) × List UInt8)
  | 0, _ => none
  | n + 1, bytes => do
      let (line, rest) ← readLine bytes
      if line = [] then some ([], rest)
      else (readFields n rest).map fun (lines, rest) => (line :: lines, rest)

/-- The value of a header field. -/
def fieldValue (name : String) (lines : List (List UInt8)) : Option (List UInt8) :=
  (lines.find? (text name ++ [58]).isPrefixOf).map fun line =>
    (line.drop (name.length + 1)).dropWhile (· = 32)

/-- The contents of the chunks up to an empty one, which is the end of the message. -/
def decodeChunks : Nat → List UInt8 → Option (List UInt8)
  | 0, _ => none
  | n + 1, bytes => do
      let (digits, rest) ← readLine bytes
      let size ← readNumber 16 digits
      if size = 0 then
        if rest = crlf then some [] else none
      else if size ≤ rest.length ∧ (rest.drop size).take 2 = crlf then
        (decodeChunks n (rest.drop (size + 2))).map (rest.take size ++ ·)
      else none

/-- The contents of a body whose header fields are known. -/
def decodeBody (lines : List (List UInt8)) (body : List UInt8) : Option (List UInt8) :=
  match fieldValue "Transfer-Encoding" lines with
  | some coding => if coding = text "chunked" then decodeChunks (body.length + 1) body else none
  | none => do
      let length ← fieldValue "Content-Length" lines
      let size ← readNumber 10 length
      if size = body.length then some body else none

/-- The contents of a successful response that ends with the given bytes. -/
def decode (bytes : List UInt8) : Option (List UInt8) := do
  let (status, rest) ← readLine bytes
  if (text "HTTP/1.1 200 ").isPrefixOf status then
    let (lines, body) ← readFields rest.length rest
    decodeBody lines body
  else none

--------------------------------------------------
-- Lines and chunks
--------------------------------------------------

/-- A line is read back, by induction on it. -/
theorem readLine_append {line : List UInt8} (plain : 13 ∉ line) (rest : List UInt8)
    : readLine (line ++ 13 :: 10 :: rest) = some (line, rest) := by
  induction line with
  | nil => rfl
  | cons b line ih =>
      rw [List.mem_cons, not_or] at plain
      rw [List.cons_append, readLine, ih plain.2, Option.map_some]
      intro more first
      exact absurd first.symm plain.1

theorem readFields_cons {line : List UInt8} (plain : 13 ∉ line) (nonempty : line ≠ []) (n : Nat)
    (rest : List UInt8)
    : readFields (n + 1) (line ++ 13 :: 10 :: rest)
      = (readFields n rest).map fun (lines, rest) => (line :: lines, rest) := by
  rw [readFields, readLine_append plain, Option.bind_eq_bind, Option.bind_some]
  exact if_neg nonempty

theorem readFields_nil (n : Nat) (rest : List UInt8)
    : readFields (n + 1) (13 :: 10 :: rest) = some ([], rest) := rfl

/-- A chunk, with its length in the digits that `size` makes of it. -/
def encodeChunk (size : Nat → List UInt8) (chunk : List UInt8) : List UInt8 :=
  size chunk.length ++ crlf ++ chunk ++ crlf

/-- The digits of a length are read back. -/
structure SizeRead (size : Nat → List UInt8) (n : Nat) : Prop where
  number : readNumber 16 (size n) = some n
  plain : 13 ∉ size n

variable {size : Nat → List UInt8}

theorem decodeChunks_cons {chunk : List UInt8} (read : SizeRead size chunk.length)
    (nonempty : chunk ≠ []) (n : Nat) (rest : List UInt8)
    : decodeChunks (n + 1) (encodeChunk size chunk ++ rest)
      = (decodeChunks n rest).map (chunk ++ ·) := by
  have bytes : encodeChunk size chunk ++ rest
      = size chunk.length ++ 13 :: 10 :: (chunk ++ 13 :: 10 :: rest) := by
    simp [encodeChunk, crlf]
  have positive : chunk.length ≠ 0 := fun empty => nonempty (List.length_eq_zero_iff.mp empty)
  have within : chunk.length ≤ (chunk ++ 13 :: 10 :: rest).length
      ∧ ((chunk ++ 13 :: 10 :: rest).drop chunk.length).take 2 = crlf := by
    simp [crlf]
  have after : (chunk ++ 13 :: 10 :: rest).drop (chunk.length + 2) = rest := by
    rw [List.drop_append, List.drop_of_length_le (by omega)]
    simp
  rw [bytes, decodeChunks, readLine_append read.plain, Option.bind_eq_bind, Option.bind_some]
  dsimp only
  rw [read.number, Option.bind_eq_bind, Option.bind_some, if_neg positive, if_pos within, after]
  simp

theorem decodeChunks_last (read : SizeRead size 0) (n : Nat)
    : decodeChunks (n + 1) (encodeChunk size []) = some [] := by
  have bytes : encodeChunk size [] = size 0 ++ 13 :: 10 :: crlf := by simp [encodeChunk, crlf]
  rw [bytes, decodeChunks, readLine_append read.plain, Option.bind_eq_bind, Option.bind_some]
  dsimp only
  rw [read.number, Option.bind_eq_bind, Option.bind_some, if_pos rfl, if_pos rfl]

/-- Chunks are decoded one after the other, by induction on their list. -/
theorem decodeChunks_append {chunks : List (List UInt8)} (reads : ∀ c ∈ chunks, SizeRead size c.length)
    (nonempty : ∀ c ∈ chunks, c ≠ []) (n : Nat) (rest : List UInt8)
    : decodeChunks (chunks.length + n) (chunks.flatMap (encodeChunk size) ++ rest)
      = (decodeChunks n rest).map (chunks.flatten ++ ·) := by
  induction chunks with
  | nil => simp
  | cons chunk chunks ih =>
      have step := decodeChunks_cons (reads chunk List.mem_cons_self)
        (nonempty chunk List.mem_cons_self) (chunks.length + n)
        (chunks.flatMap (encodeChunk size) ++ rest)
      have more := ih (fun c mem => reads c (List.mem_cons_of_mem _ mem))
        fun c mem => nonempty c (List.mem_cons_of_mem _ mem)
      rw [more, Option.map_map] at step
      rw [List.flatMap_cons, List.append_assoc, List.length_cons,
        show chunks.length + 1 + n = chunks.length + n + 1 by omega, step]
      congr 1
      funext decoded
      simp

/-- There are no more chunks than bytes. -/
theorem length_le_chunks (size : Nat → List UInt8) (chunks : List (List UInt8))
    : chunks.length ≤ (chunks.flatMap (encodeChunk size)).length := by
  induction chunks with
  | nil => exact Nat.le_refl 0
  | cons chunk chunks ih =>
      simp only [List.flatMap_cons, List.length_append, List.length_cons, encodeChunk, crlf,
        List.length_nil]
      omega

/-- A body of chunks is read back. -/
theorem decodeChunks_chunks {chunks : List (List UInt8)} (zero : SizeRead size 0)
    (reads : ∀ c ∈ chunks, SizeRead size c.length) (nonempty : ∀ c ∈ chunks, c ≠ [])
    : decodeChunks ((chunks.flatMap (encodeChunk size) ++ encodeChunk size []).length + 1)
        (chunks.flatMap (encodeChunk size) ++ encodeChunk size [])
      = some chunks.flatten := by
  have many := length_le_chunks size chunks
  obtain ⟨n, fuel⟩ : ∃ n, (chunks.flatMap (encodeChunk size) ++ encodeChunk size []).length + 1
      = chunks.length + (n + 1) := by
    refine ⟨(chunks.flatMap (encodeChunk size) ++ encodeChunk size []).length - chunks.length, ?_⟩
    rw [List.length_append]
    omega
  rw [fuel, decodeChunks_append reads nonempty, decodeChunks_last zero]
  simp

/-- A body that ends before its empty chunk is refused. -/
theorem decodeChunks_unended {chunks : List (List UInt8)}
    (reads : ∀ c ∈ chunks, SizeRead size c.length) (nonempty : ∀ c ∈ chunks, c ≠ [])
    : decodeChunks ((chunks.flatMap (encodeChunk size)).length + 1)
        (chunks.flatMap (encodeChunk size))
      = none := by
  have many := length_le_chunks size chunks
  obtain ⟨n, fuel⟩ : ∃ n, (chunks.flatMap (encodeChunk size)).length + 1 = chunks.length + (n + 1) :=
    ⟨(chunks.flatMap (encodeChunk size)).length - chunks.length, by omega⟩
  have decoded := decodeChunks_append reads nonempty (n + 1) []
  rw [List.append_nil] at decoded
  rw [fuel, decoded]
  rfl

end HttpMessage
