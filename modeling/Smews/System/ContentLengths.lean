import Smews.Input.ContentLength
import Smews.System.UrlRouting

/-! The content length of a POST request is the one of its header line, in any case, with spaces and in any
segments, unless a beginning of the number is 255.
-/

namespace Smews.System

open Smews.Core Smews.Input Runs

/-- `Content-Length: N` is read as `N` at the end of the header, in a header that names it once, exactly unless
a beginning of the decimal number is 255.
-/
theorem content_length_read {r : Request} {heap : Heap} {handler : Option HandlerRef} {bytes : List UInt8}
    {start : Parse} {headers : Parse × List UInt8} {line : LengthLine} {before after : List UInt8}
    {urlEvents : List (Option UInt8)}
    (fresh : r.parsingState = .out) (started : startSegment p r heap handler = some start)
    (requested : Run (ReadsUrl p) (start, bytes) urlEvents headers)
    (posted : headers.1.request.parsingState = .postAttributes)
    (run : Run (ReadsHeader p) headers events x) (_ended : HeaderRead x.1)
    (text : textOf events = before ++ [13, 10] ++ line.bytes ++ 13 :: after)
    (once : ¬ lengthName <:+: before.map upper ∧ ¬ lengthName <:+: after.map upper)
    (small : line.number < 65535)
    : x.1.post.map PostData.contentLength = some (UInt16.ofNat line.number)
      ↔ line.number ≠ 255 ∧ line.number / 10 ≠ 255 ∧ line.number / 100 ≠ 255 := by
  have header : AtHeader headers.1 := by
    rcases requestLine_run requested (startSegment_requestLine fresh started) with line | header
    · rcases line.state with state | state <;> rw [posted] at state <;> cases state
    · exact header
  have text' : textOf events = before ++ ([13, 10] ++ (line.name ++ (line.value ++ ([13] ++ after)))) := by
    rw [text, LengthLine.bytes]
    simp
  obtain ⟨x1, e1, f1, run1, text1, rest1, text1'⟩ := run_split run _ text'
  obtain ⟨x2, e2, f2, run2, text2, rest2, text2'⟩ := run_split rest1 _ text1'
  obtain ⟨x3, e3, f3, run3, text3, rest3, text3'⟩ := run_split rest2 _ text2'
  obtain ⟨x4, e4, f4, run4, text4, rest4, text4'⟩ := run_split rest3 _ text3'
  obtain ⟨x5, e5, e6, run5, text5, run6, text6⟩ := run_split rest4 _ text4'
  -- the lines before
  have root : HeaderPosition [] headers.1 := .word header.state List.nil_suffix (header.root ▸ attributes_root)
  obtain ⟨position1, header1⟩ := header_run run1 root header.fresh (by rw [text1]; exact once.1)
  rw [text1] at position1
  -- the line
  have at_line := newline_run run2 text2 position1 header1 fun suffix => once.1 suffix.isInfix
  have at_value := lineStart_run run3 text3 line.spelled at_line
  have behind := onLength_end run5 text5 (onLength_run run4 text4 line.no_return at_value)
  -- the lines after
  obtain ⟨-, header6⟩ := header_run run6 behind.1 behind.2 (by rw [text6]; exact once.2)
  rw [line.read] at header6
  have small' : numberFrom (0 : UInt16).toNat line.digits < 65536 := Nat.lt_trans small (by decide)
  obtain ⟨-, read⟩ := digits_read line.digit small'
  rw [header6.length, Option.some.injEq, ← UInt16.toNat_inj, UInt16.toNat_ofNat',
    Nat.mod_eq_of_lt (Nat.lt_trans small (by decide))]
  exact read.trans (avoids_iff line.digit small)

/-- A turn that reads a byte, when it does. -/
def readNext (p : Program) : Parse × List UInt8 → Option UInt8 → Option (Parse × List UInt8)
  | (s, c :: rest), some d =>
      if c = d ∧ parsing s (c :: rest) then
        match parseTurn p s (c :: rest) with
        | some (.again s', rest') => if rest' = rest then some (s', rest) else none
        | _ => none
      else none
  | _, _ => none

theorem readNext_reads {p : Program} {x x' : Parse × List UInt8} {e : Option UInt8}
    (read : readNext p x e = some x')
    : ReadsOn p x e x' := by
  unfold readNext at read
  split at read
  swap
  · cases read
  split at read
  swap
  · cases read
  rename_i byte
  obtain ⟨rfl, goes_on⟩ := byte
  split at read
  swap
  · cases read
  rename_i turned
  split at read
  swap
  · cases read
  rename_i same
  cases read
  exact .byte goes_on (same ▸ turned)

instance (s : Parse) : Decidable (HeaderRead s) := inferInstanceAs (Decidable (_ ∧ _))

/-- The resource `/a` for POST requests. -/
def postTable : List Url := [⟨[47, 97], true⟩]

/-- The request fields of a new connection. -/
def newcomer : Request :=
  (listenConnection (urlPages postTable) bootServer (clientSegment 1000 0 0 0 [] [] bare_fits)).request

def postLine : List UInt8 := ascii "POST /a "

/-- The header of a POST request for `/a` is read, in one segment. -/
structure ReadsText (text : List UInt8) (start : Parse) (headers x : Parse × List UInt8) : Prop where
  started : startSegment (urlPages postTable) newcomer bootServer.heap none = some start
  requested : Run (ReadsUrl (urlPages postTable)) (start, postLine ++ text) (postLine.map some) headers
  posted : headers.1.request.parsingState = .postAttributes
  run : Run (ReadsHeader (urlPages postTable)) headers (text.map some) x
  ended : HeaderRead x.1

/-- What becomes of the length when a text is read. -/
def lengthBehind (text : List UInt8) : Option (Option UInt16) :=
  (startSegment (urlPages postTable) newcomer bootServer.heap none).bind fun start =>
    (runChecked (readNext (urlPages postTable)) (fun x _ => x.1.request.parsingState ≠ .postAttributes)
      (postLine.map some) (start, postLine ++ text)).bind fun headers =>
        if headers.1.request.parsingState = .postAttributes then
          (runChecked (readNext (urlPages postTable)) (fun x _ => ¬ HeaderRead x.1) (text.map some) headers).bind
            fun x => if HeaderRead x.1 then some (x.1.post.map PostData.contentLength) else none
        else none

theorem lengthBehind_reads {text : List UInt8} {length : Option UInt16} (behind : lengthBehind text = some length)
    : ∃ start headers x, ReadsText text start headers x ∧ x.1.post.map PostData.contentLength = length := by
  obtain ⟨start, started, behind⟩ := Option.bind_eq_some_iff.mp behind
  obtain ⟨headers, requested, behind⟩ := Option.bind_eq_some_iff.mp behind
  obtain ⟨posted, behind⟩ := Option.ite_none_right_eq_some.mp behind
  obtain ⟨x, run, behind⟩ := Option.bind_eq_some_iff.mp behind
  obtain ⟨ended, same⟩ := Option.ite_none_right_eq_some.mp behind
  exact ⟨start, headers, x, ⟨started, (Run.of_checked requested).mono fun step => ⟨step.2, readNext_reads step.1⟩,
    posted, (Run.of_checked run).mono fun step => ⟨step.2, readNext_reads step.1⟩, ended⟩, Option.some.inj same⟩

/-- A content length of 12. -/
def twelve : LengthLine where
  name := ascii "Content-Length"
  beforeColon := []
  afterColon := [32]
  digits := ascii "12"
  trailing := []
  spelled := by decide
  spaces := by decide +kernel
  digit := by decide +kernel

theorem content_length_read_twelve
    : ∃ start headers x, ReadsText (ascii "HTTP/1.1\r\nContent-Length: 12\r\n\r") start headers x
      ∧ x.1.post.map PostData.contentLength = some 12 := by
  have behind : lengthBehind (ascii "HTTP/1.1\r\nContent-Length: 12\r\n\r") = some (some 12) := by decide +kernel
  obtain ⟨start, headers, x, reads, -⟩ := lengthBehind_reads behind
  refine ⟨start, headers, x, reads, ?_⟩
  have text : textOf ((ascii "HTTP/1.1\r\nContent-Length: 12\r\n\r").map some)
      = ascii "HTTP/1.1" ++ [13, 10] ++ twelve.bytes ++ 13 :: [10, 13] := by
    decide
  exact (content_length_read rfl reads.started reads.requested reads.posted reads.run reads.ended text
    (by decide +kernel) (by decide +kernel)).mpr (by decide +kernel)

/-- A content length of 2550 is read as 0: the 255 of its first digits is taken for an unset length. -/
theorem content_length_misread
    : ∃ start headers x, ReadsText (ascii "HTTP/1.1\r\nContent-Length: 2550\r\n\r") start headers x
      ∧ x.1.post.map PostData.contentLength = some 0 :=
  lengthBehind_reads (by decide +kernel)

end Smews.System
