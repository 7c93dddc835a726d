import Smews.Core.Handlers
import Smews.Tools.GenBlob

/-! The arrays that the parser walks: those of `blobs.h`, built by the encoder from the lists
of `tools/`, and the walk itself.
-/

namespace Smews.Input

open Smews.Core Tools

--------------------------------------------------
-- The generated arrays
--------------------------------------------------

/-- `tools/supportedRequestList`, each line followed by a space. -/
def requestList : List String := ["GET ", "POST "]

/-- `tools/supportedPostAttributList`. -/
def attributList : List String := ["CONTENT-TYPE", "CONTENT-LENGTH", "FILENAME=", "BOUNDARY="]

/-- `tools/mimeListPost`. -/
def mimesListPost : List String :=
  [
    "application/x-latex", "application/x-sh", "application/x-tar", "application/x-tex",
    "application/x-www-form-urlencoded", "application/zip", "image/png", "image/jpeg",
    "model/vrml", "multipart/form-data", "text/css", "text/html", "text/javascript",
    "text/plain", "text/richtext", "text/rtf", "video/x-msvideo"
  ]

@[irreducible] def blobHttpRqt : List UInt8 := genBlobTree (requestList.map ascii)

@[irreducible] def blobHttpHeaderContent : List UInt8 := genBlobTree (attributList.map ascii)

@[irreducible] def mimesTree : List UInt8 := genBlobTree (mimesListPost.map ascii)

def blobHttpHeaderEnd : List UInt8 := [13, 10, 13, 128]

def requestPost : UInt8 := 1
def attributContentType : UInt8 := 0
def attributContentLength : UInt8 := 1
def attributFilename : UInt8 := 2
def attributBoundary : UInt8 := 3
def urlPostEnd : UInt8 := 255
def headerPostEnd : UInt8 := 128

example : mimesListPost[contentTypeUrlencoded.toNat]? = some "application/x-www-form-urlencoded" :=
  rfl

example : mimesListPost[contentTypeMultipart.toNat]? = some "multipart/form-data" := rfl

example : blobHttpRqt = [80, 3, 6, 71, 69, 84, 32, 128, 0, 79, 83, 84, 32, 129, 0] := by
  decide +kernel

--------------------------------------------------
-- The walk
--------------------------------------------------

/-- The number of subtrees that a byte of flags announces. -/
def offsetInf (flags : UInt8) : UInt8 :=
  (flags >>> 2 &&& (1 : UInt8)) + (flags >>> 1 &&& (1 : UInt8)) + (flags &&& (1 : UInt8))

/-- One turn of the `do` loop: `found` leaves the loop with a new `blob`, `mismatch` leaves it
without, `descend` goes to a brother. `none` stands for a read past the array.
-/
inductive Turn
  | found (blob : List UInt8)
  | mismatch
  | descend (blob : List UInt8)
deriving DecidableEq, Repr

/-- The turn taken by the flags `next` at the head of `blob`, where `curr` precedes them. -/
def turnAt (c curr next : UInt8) (blob : List UInt8) : Option Turn := do
  let sizeInf ← if next < 32 ∧ next &&& 2 ≠ 0 then blob[1]? else some 0
  let offsetEq := offsetInf next + sizeInf
  if c = curr then
    if next < 32 then
      if next &&& 2 ≠ 0 then some (.found (blob.drop offsetEq.toNat)) else some .mismatch
    else some (.found blob)
  else if c < curr then
    if next < 32 ∧ next &&& 1 ≠ 0 then some (.descend (blob.drop (offsetInf next).toNat))
    else some .mismatch
  else if next < 32 ∧ next &&& 4 ≠ 0 then do
    let sizeEq ← if next &&& 3 ≠ 0 then blob[(offsetInf next).toNat - 1]? else some 0
    some (.descend (blob.drop (offsetEq + sizeEq).toNat))
  else some .mismatch

/-- A turn from `blob`: the reference of a final node stands before its flags and is skipped
unless the byte matches.
-/
def turn (c : UInt8) : List UInt8 → Option Turn
  | curr :: next :: blob =>
      if c ≠ curr ∧ 128 ≤ next then
        match blob with
        | [] => none
        | next :: blob => turnAt c curr next (next :: blob)
      else turnAt c curr next (next :: blob)
  | _ => none

/-- The `do` loop: where `blob` goes on the byte `c`, with `none` inside for a mismatch. Each
turn moves `blob` forward, so its length bounds their number.
-/
def walk (c : UInt8) : Nat → List UInt8 → Option (Option (List UInt8))
  | 0, _ => none
  | fuel + 1, blob =>
      match turn c blob with
      | none => none
      | some (.found blob) => some (some blob)
      | some .mismatch => some none
      | some (.descend blob) => walk c fuel blob

end Smews.Input
