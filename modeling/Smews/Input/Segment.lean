import Smews.Input.Parser

/-! The parsing of the data of one segment in `smews_receive`: the locals are set up from
`tmp_connection`, the loop runs, and its result is stored back.
-/

namespace Smews.Input

open Smews.Core

/-- The start of a new request. -/
def newRequest (r : Request) : Request :=
  {
    r with
    args := .null
    argRefIndex := 128
    blob := blobHttpRqt
    parsingState := .cmd
    readyToSend := true
    postData := none
    postUrlDetected := false
  }

/-- The locals at the start of a segment, with `output_handler` taken from the connection in
the middle of a request. The reference of a value being read is looked up, which needs a
handler with arguments.
-/
def startSegment (p : Program) (r : Request) (heap : Heap) (handler : Option HandlerRef)
    : Option Parse :=
  let request := if r.parsingState = .out then newRequest r else r
  let outputHandler := if r.parsingState = .out then none else handler
  let s := {
    request, heap, outputHandler
    blob := request.blob
    argsSizeRef := p.garbage
  }
  if request.argRefIndex = 128 then
    some s
  else do
    let _ ← argRef p s request.argRefIndex
    let handler ← outputHandler
    some { s with argsSizeRef := (p.handler handler).args.argsSize }

/-- Whether all the arguments of a form were read. -/
def formEnded (s : Parse) : Option Bool :=
  if s.request.parsingState = .postArgs then s.post.map fun pd => pd.contentLength == 0
  else some false

/-- The detection of the end of a request after the loop. -/
def detectEnd (s : Parse) : Option Parse := do
  let formEnded ← formEnded s
  let failed := s.outputHandler.any HandlerRef.isError && s.request.parsingState != .cmd
  if formEnded || failed then
    some { s with request := { s.request with readyToSend := true, parsingState := .ended } }
  else
    some s

/-- The characters of a boundary at the end of a request: those of a string constant must not
be freed.
-/
def freeBoundaryRef (pd : PostData) (b : Boundary) (heap : Heap) : Option Heap :=
  match b.boundaryRef with
  | some (.block ref) =>
      some (if pd.contentLength = 0xffff then heap
        else heap.memFree (some ref) b.boundarySize.toUInt16)
  | some .crlfcrlf => if pd.contentLength = 0xffff then some heap else none
  | none => some heap

/-- The blocks of a boundary at the end of a request. -/
def freeBoundary (p : Program) (pd : PostData) (heap : Heap) : Option Heap :=
  match pd.boundary with
  | none => some heap
  | some a => do
      let b := heap.boundary a
      let heap ← freeBoundaryRef pd b heap
      let heap ← heap.memFreePointer b.boundaryBuffer b.boundarySize.toUInt16
      some (heap.memFree (some a) p.sizeofBoundary)

/-- The clean-up of a POST request: its file name and boundary. -/
def cleanPost (p : Program) (s : Parse) : Option Parse :=
  match s.request.postData with
  | none => some s
  | some _ => do
      let s ← freeFilename s
      let pd ← s.post
      let heap ← freeBoundary p pd s.heap
      { s with heap }.updatePost fun pd => { pd with boundary := none }

/-- The clean-up of a request that ends in an error page: its POST data and arguments. -/
def cleanError (p : Program) (s : Parse) : Option Parse :=
  if s.outputHandler.any HandlerRef.isError then do
    let heap := s.heap.memFree s.request.postData p.sizeofPostData
    let heap ← heap.memFreePointer s.request.args s.argsSizeRef
    some { s with heap, request := { s.request with postData := none, args := .null } }
  else
    some s

/-- What the parsing of a segment leaves behind: the request fields, the blocks, the handler
that becomes the one of the connection, and the bytes to be dropped.
-/
structure Outcome where
  request : Request
  heap : Heap
  selected : Option HandlerRef
  dropped : List UInt8

/-- After the loop: the request fields are saved, or reset when the request is complete. -/
def finishSegment (p : Program) (s : Parse) (dropped : List UInt8) : Option Outcome := do
  let s ← detectEnd s
  match s.outputHandler with
  | none =>
      some {
        request := { s.request with blob := s.blob }
        heap := s.heap
        selected := none
        dropped
      }
  | some handler =>
      let selected := if s.request.parsingState = .cmd then none else some handler
      if s.request.parsingState = .ended ∨ s.request.parsingState = .cmd then do
        let s ← cleanPost p s
        let s ← cleanError p s
        let request := { s.request with
          parsingState := .out
          blob := blobHttpRqt
          argRefIndex := 128
        }
        some { request, heap := s.heap, selected, dropped }
      else
        some {
          request := { s.request with blob := s.blob }
          heap := s.heap
          selected
          dropped
        }

/-- How the parsing of a segment ends: the rest of `smews_receive` runs, or it returned. -/
inductive Segmented
  | parsed (outcome : Outcome)
  | returned (heap : Heap)

/-- The parsing of the bytes of a segment. The loop turns at most three times for each byte.
-/
def parseSegment (p : Program) (r : Request) (heap : Heap) (handler : Option HandlerRef)
    (bytes : List UInt8)
    : Option Segmented := do
  let s ← startSegment p r heap handler
  match ← parseLoop p (3 * bytes.length + 3) s bytes with
  | .done s dropped => (finishSegment p s dropped).map .parsed
  | .quit s => some (.returned s.heap)

end Smews.Input
