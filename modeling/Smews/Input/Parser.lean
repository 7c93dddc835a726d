import Smews.Core.Connections
import Smews.Input.Blobs

/-! The HTTP parser of `smews_receive`. One turn of its loop is a sequence of stages, in the
order of the source; each stage ends the turn or hands over to the next one.
-/

namespace Smews.Input

open Smews.Core

--------------------------------------------------
-- State
--------------------------------------------------

/-- What the parser works on: the request fields of `tmp_connection`, the blocks they point
to, and the local variables `output_handler`, `blob` and `tmp_args_size_ref`. The bytes of the
segment not read yet are passed along to what reads them.
-/
structure Parse where
  request : Request
  heap : Heap
  outputHandler : Option HandlerRef
  blob : List UInt8
  argsSizeRef : UInt16

/-- How a stage ends: the next stage runs with a value of `blob_curr`, the input coroutine is
reached, or the turn ends by `continue`, `break` or `return 1`.
-/
inductive Flow
  | next (blobCurr : UInt8) (s : Parse)
  | input (s : Parse)
  | again (s : Parse)
  | leave (s : Parse)
  | quit (s : Parse)

/-- Going on with the stage that follows. -/
def Flow.andThen (flow : Option Flow) (stage : UInt8 → Parse → Option Flow) : Option Flow :=
  match flow with
  | some (.next blobCurr s) => stage blobCurr s
  | other => other

namespace Parse

def setState (s : Parse) (state : ParsingState) : Parse :=
  { s with request := { s.request with parsingState := state } }

/-- `output_handler = &http_404_handler; break;`. -/
def notFound (s : Parse) : Flow := .leave { s with outputHandler := some .http404 }

/-- `blob_curr = CONST_READ_UI8(blob)` before the next stage. -/
def reread (s : Parse) : Option Flow := s.blob.head?.map fun blobCurr => .next blobCurr s

/-- The fields behind `tmp_connection.protocol.http.post_data`. -/
def post (s : Parse) : Option PostData := s.request.postData.map s.heap.postData

/-- The fields behind `post_data->boundary`. -/
def boundary (s : Parse) : Option Boundary := do
  let pd ← s.post
  pd.boundary.map s.heap.boundary

/-- A store into `post_data`, undefined through a null pointer. -/
def updatePost (s : Parse) (f : PostData → PostData) : Option Parse := do
  let a ← s.request.postData
  some { s with heap := s.heap.setPostData a (f (s.heap.postData a)) }

/-- A store into `post_data->boundary`. -/
def updateBoundary (s : Parse) (f : Boundary → Boundary) : Option Parse := do
  let pd ← s.post
  let a ← pd.boundary
  some { s with heap := s.heap.setBoundary a (f (s.heap.boundary a)) }

end Parse

--------------------------------------------------
-- Boundaries
--------------------------------------------------

/-- The loop that compares `boundary_ref` from `i` on with `boundary_buffer` from `index` on,
`n` characters of the reference being left before the last one.
-/
def boundaryMatches (ref buffer : Int → UInt8) (size : UInt8) : Nat → Nat → UInt8 → Bool
  | 0, _, _ => true
  | n + 1, i, index =>
      let index := if index = size then 0 else index
      ref i = buffer index.toNat && boundaryMatches ref buffer size n (i + 1) (index + 1)

/-- The test for a boundary: its last character against the one of the buffer at `last`, its
first against the one at `index`, and then those in between.
-/
def atBoundary (ref buffer : Int → UInt8) (size index : UInt8) (last : Int) : Bool :=
  buffer last = ref (size.toNat - 1 : Int) && buffer index.toNat = ref 0
    && 2 ≤ size.toNat && boundaryMatches ref buffer size (size.toNat - 2) 1 (index + 1)

/-- The stage of `parsing_init_buffer`. -/
def initBuffer (c blobCurr : UInt8) (s : Parse) : Option Flow := do
  let b ← s.boundary
  let buffer ← b.bufferBlock
  let ref ← b.boundaryRef
  let heap ← s.heap.poke buffer b.index.toNat c
  let index := b.index + 1
  let s ← { s with heap }.updateBoundary fun b => { b with index }
  if index = b.boundarySize then
    if b.boundarySize = 0 then
      none
    else
      let s := s.setState .postData
      let found :=
        atBoundary (s.heap.peek ref) (s.heap.chars buffer) b.boundarySize index
          (((index.toNat : Int) - 1) % b.boundarySize.toNat)
      if found then
        let s := { s.setState .postAttributes with blob := blobHttpHeaderContent }
        (s.updateBoundary fun b => { b with index := 255 }).map (.next blobCurr)
      else
        some (.next blobCurr s)
  else
    some (.again s)

/-- The stage of `parsing_boundary`. The index of the last character is reduced in signed
arithmetic.
-/
def searchBoundary (c : UInt8) (s : Parse) : Option Flow := do
  let b ← s.boundary
  let buffer ← b.bufferBlock
  let ref ← b.boundaryRef
  if b.boundarySize = 0 then
    none
  else
    let index := if b.index = b.boundarySize then 0 else b.index
    let found :=
      atBoundary (s.heap.peek ref) (s.heap.chars buffer) b.boundarySize index
        (((index.toNat : Int) - 1).tmod b.boundarySize.toNat)
    if found then
      let s := { s.setState .postAttributes with blob := blobHttpHeaderContent }
      (s.updateBoundary fun b => { b with index := 255 }).map .again
    else
      let heap ← s.heap.poke buffer index.toNat c
      ({ s with heap }.updateBoundary fun b => { b with index := index + 1 }).map .again

--------------------------------------------------
-- The input coroutine
--------------------------------------------------

/-- The part of `in` that takes the byte `c` from the segment: with a boundary the byte goes
through `boundary_buffer`, and the one it replaces is returned.
-/
def takeByte (h : Heap) (post : Addr) (c : UInt8) : Option (UInt8 × Heap) := do
  let pd := h.postData post
  match pd.boundary with
  | none => some (c, h.setPostData post pd.countDown)
  | some a => do
      let b := h.boundary a
      let buffer ← b.bufferBlock
      let ref ← b.boundaryRef
      let taken := h.chars buffer b.index.toNat
      let h ← h.poke buffer b.index.toNat c
      let index := if b.index + 1 = b.boundarySize then 0 else b.index + 1
      if b.boundarySize = 0 then
        none
      else
        let found :=
          atBoundary (h.peek ref) (h.chars buffer) b.boundarySize index
            ((index - 1) % b.boundarySize).toNat
        let h := h.setBoundary a { b with index := if found then 255 else index }
        some (taken, h.setPostData post (h.postData post).countDown)

/-- How the input coroutine gives the processor back: suspended in `in`, or returned with a
value behind its `post_data` pointer.
-/
inductive Fed
  | suspended (frame : Frame)
  | returned (postData : Nat)

/-- The tests of `in` that answer without reading: nothing is left, or the boundary was
found.
-/
def inputEnded (h : Heap) (post : Addr) : Bool :=
  let pd := h.postData post
  pd.contentLength = 0
    || match pd.boundary with
      | none => false
      | some a => (h.boundary a).index = 255

/-- `dopostin` from a call of `in` or a return on, with the bytes left in the segment. A call
of `out_c` is undefined: `curr_output` belongs to another connection.
-/
def feed (post : Addr) : Cont → Heap → List UInt8 → Option (Fed × Heap × List UInt8)
  | .ret value, h, rest => some (.returned value, h, rest)
  | .outC _ _, _, _ => none
  | .inC k, h, rest =>
      if inputEnded h post then
        feed post (k none) h rest
      else
        match rest with
        | [] => some (.suspended (.inResume k), h, [])
        | c :: rest =>
            match takeByte h post c with
            | none => none
            | some (taken, h) => feed post (k (some taken)) h rest

/-- `dopostin` from where it was suspended in `in`. -/
def resume (post : Addr) (h : Heap) (rest : List UInt8) : Option (Fed × Heap × List UInt8) :=
  match h.sharedStack, rest with
  | .inResume k, c :: rest => do
      let (taken, h) ← takeByte h post c
      feed post (k (some taken)) h rest
  | _, _ => none

/-- `dopostin` of the resource that a handler names. -/
def dopostin (p : Program) (handler : HandlerRef)
    : Option (Nat → UInt8 → UInt8 → Option (Nat → UInt8) → Nat → Cont) :=
  match (p.handler handler).data with
  | .generator ⟨.post dopostin _, _⟩ => some dopostin
  | _ => none

/-- `cr_run` of the input coroutine: its function starts, or goes on. -/
def runInput (p : Program) (post : Addr) (h : Heap) (rest : List UInt8)
    : Option (Fed × Heap × List UInt8) :=
  let coroutine := h.coroutine (.postData post)
  match coroutine.currContext.status, coroutine.func with
  | .ready, .postIn handler contentType partNumber filename value => do
      let start ← dopostin p handler
      let name := filename.map fun a (i : Nat) => h.chars a i
      let h := { h with starts := h.starts + 1 }
      feed post (start h.starts contentType partNumber name value) h rest
  | .active, .postIn _ _ _ _ _ => resume post h rest
  | _, _ => none

/-- `while(filename[i++] != '\0')`: the length of a file name, terminator included. The loop
does not end when none of 256 characters is the terminator.
-/
def filenameLength (h : Heap) (a : Addr) : Option UInt16 :=
  ((List.range 256).find? fun (i : Nat) => h.chars a i = 0).map fun i =>
    (UInt8.ofNat (i + 1)).toUInt16

/-- Freeing the file name of the current part. -/
def freeFilename (s : Parse) : Option Parse := do
  let pd ← s.post
  match pd.filename with
  | none => some s
  | some a => do
      let length ← filenameLength s.heap a
      let s := { s with heap := s.heap.memFree (some a) length }
      s.updatePost fun pd => { pd with filename := none }

/-- The preparation of the input coroutine for a new part; `none` inside when `cr_prepare`
fails.
-/
def startInput (p : Program) (post : Addr) (s : Parse) : Option (Bool × Parse) := do
  let handler ← s.outputHandler
  let _ ← dopostin p handler
  let pd ← s.post
  let ref := CrRef.postData post
  let heap := s.heap.crInit p ref
  let part := (s.boundary.map Boundary.multiPartCounter).getD 0
  let func := CrFunc.postIn handler pd.contentType part pd.filename pd.postData
  let heap := heap.setCoroutine ref { heap.coroutine ref with func }
  let heap :=
    match pd.boundary with
    | none => heap
    | some a => heap.setBoundary a { heap.boundary a with index := 0 }
  let (prepared, heap) := heap.crPrepare ref
  some (prepared, { s with heap })

/-- What follows the return of `dopostin` with a value. -/
def finishInput (post : Addr) (value : Nat) (s : Parse) : Option Flow := do
  let ref := CrRef.postData post
  let s := { s with heap := (s.heap.crTerminate ref) }
  let s ← s.updatePost fun pd => { pd with postData := value }
  let s := { s with heap := s.heap.crClean ref }
  let s ← freeFilename s
  match s.boundary with
  | none =>
      let s := s.setState .ended
      some (.leave { s with request := { s.request with readyToSend := true } })
  | some b => do
      let pd ← s.post
      let s ← s.updateBoundary fun b => { b with multiPartCounter := b.multiPartCounter + 1 }
      let s :=
        if b.index = 255 then
          { s.setState .postAttributes with blob := blobHttpHeaderContent }
        else
          s.setState .boundary
      if pd.contentLength = 0xffff then
        let s := s.setState .ended
        some (.leave { s with request := { s.request with readyToSend := true } })
      else
        some (.again s)

/-- `cr_prepare` for the input coroutine, when a new part begins. -/
def prepareInput (p : Program) (post : Addr) (s : Parse) : Option (Bool × Parse) :=
  if (s.heap.coroutine (.postData post)).currContext.status = .terminated then
    startInput p post s
  else some (true, s)

/-- The run of the input coroutine and what follows it, with the bytes left. -/
def runPostData (p : Program) (post : Addr) (s : Parse) (rest : List UInt8)
    : Option (Flow × List UInt8) := do
  let (fed, heap, rest) ← runInput p post s.heap rest
  let s := { s with heap }
  match fed with
  | .suspended frame =>
      let s := { s with heap := s.heap.crSuspend p (.postData post) frame }
      some (if s.boundary.isSome then .again s else .leave s, rest)
  | .returned value => (finishInput post value s).map (·, rest)

/-- The block of `parsing_post_data`. -/
def parsePostData (p : Program) (s : Parse) (rest : List UInt8) : Option (Flow × List UInt8) := do
  let post ← s.request.postData
  let terminated := (s.heap.coroutine (.postData post)).currContext.status = .terminated
  if terminated ∧ (s.boundary.any fun b => b.index = 255) then
    let s ← s.updateBoundary fun b => { b with index := 0 }
    some (.again (s.setState .initBuffer), rest)
  else do
    let (prepared, s) ← prepareInput p post s
    if prepared then runPostData p post s rest else some (.quit s, rest)

--------------------------------------------------
-- The stages at a reference
--------------------------------------------------

/-- `boundary_t` of a request without content length, which ends with an empty line. -/
def emptyLineBoundary (p : Program) (blobCurr : UInt8) (s : Parse) : Option Flow := do
  let (a, heap) := s.heap.memAlloc p.sizeofBoundary
  let s ← { s with heap }.updatePost fun pd => { pd with boundary := a }
  match a with
  | none => some s.notFound
  | some a => do
      let (buffer, heap) := s.heap.memAlloc 4
      let s ← { s with heap }.updateBoundary fun b =>
        {
          b with
          boundarySize := 4
          index := 255
          multiPartCounter := 0
          boundaryRef := some .crlfcrlf
          boundaryBuffer := .ofOption buffer
        }
      match buffer with
      | none => some (Parse.notFound { s with heap := s.heap.memFree (some a) p.sizeofBoundary })
      | some _ => some (.next blobCurr (s.setState .postData))

/-- The end of a header was detected: of the request, or of a part. -/
def headerEnd (p : Program) (blobCurr : UInt8) (s : Parse) : Option Flow := do
  let pd ← s.post
  if pd.contentType = 255 then
    some (.leave { s with outputHandler := some .http505 })
  else if pd.boundary.isSome then do
    let s ← s.updateBoundary fun b => { b with readyToCount := true }
    if pd.contentType = contentTypeMultipart then
      some (.again { s.setState .postAttributes with blob := blobHttpHeaderContent })
    else
      some (.next blobCurr (s.setState .postData))
  else if pd.contentType = contentTypeUrlencoded then
    some (.next blobCurr (s.setState .postArgs))
  else if pd.contentLength = 0xffff then
    emptyLineBoundary p blobCurr s
  else
    some (.next blobCurr (s.setState .postData))

/-- The mark of a POST resource at the end of its URL. -/
def urlEnd (s : Parse) : Option Flow :=
  match s.request.postData with
  | none => some s.notFound
  | some _ =>
      let s := { s with
        request := { s.request with postUrlDetected := true }
        blob := s.blob.drop 1
      }
      s.reread

/-- A byte of a content length. A length of 255 is taken for an unset one. -/
def contentLength (c : UInt8) (s : Parse) : Option Parse :=
  s.updatePost fun pd =>
    let length := if pd.contentLength = 255 then 0 else pd.contentLength
    if c = 32 ∨ c = 13 then { pd with contentLength := length }
    else { pd with contentLength := length * 10 + (c.toUInt16 - 48) }

/-- A `char` of a file name converted to `int`. -/
def charToInt (c : UInt8) : Int := if c < 128 then c.toNat else c.toNat - 256

/-- The end of a file name: it is copied to a block of its size, without the two counters at
its beginning.
-/
def endFilename (a : Addr) (s : Parse) : Option Flow := do
  let used := charToInt (s.heap.chars a 0)
  let allocated := charToInt (s.heap.chars a 1)
  match s.heap.memAlloc (UInt16.ofInt (used - 1)) with
  | (none, heap) => some (Parse.notFound { s with heap })
  | (some new, heap) => do
      let length := (used - 2).toNat
      let copied := fun (i : Int) =>
        if 0 ≤ i ∧ i < length then heap.chars a (i + 2)
        else if i = length then 0
        else heap.chars new i
      if length < (heap.size new).toNat then
        let heap := { heap with chars := Function.update heap.chars new copied }
        let heap := heap.memFree (some a) (UInt16.ofInt allocated)
        let s ← { s with heap }.updatePost fun pd => { pd with filename := some new }
        Parse.reread { s.setState .postAttributes with blob := blobHttpHeaderContent }
      else
        none

/-- The block of a file name, with room for one more character; `none` inside when it cannot
be allocated.
-/
def growFilename (used allocated : UInt8) (a : Addr) (s : Parse)
    : Option (Option Addr × Parse) :=
  if used = allocated then do
    let (new, heap) := s.heap.memRealloc a (UInt16.ofInt (charToInt allocated)) 10
    let s ← { s with heap }.updatePost fun pd => { pd with filename := new }
    match new with
    | none => some (none, s)
    | some new => do
        let heap ← s.heap.poke new 1 (allocated + 10)
        some (some new, { s with heap })
  else some (some a, s)

/-- A byte of a file name. The block starts with the number of characters used, these two
included, and the size allocated.
-/
def filenameByte (c : UInt8) (a : Addr) (s : Parse) : Option Flow := do
  let used := s.heap.chars a 0
  let (a, s) ← growFilename used (s.heap.chars a 1) a s
  match a with
  | none => some s.notFound
  | some a => do
      let heap ← s.heap.poke a (charToInt used) c
      let heap ← heap.poke a 0 (used + 1)
      Parse.reread { s with heap }

/-- The attribute `FILENAME=`. -/
def filename (c : UInt8) (s : Parse) : Option Flow := do
  let pd ← s.post
  match pd.filename with
  | none =>
      match s.heap.memAlloc 10 with
      | (none, heap) => some (Parse.notFound { s with heap })
      | (some a, heap) => do
          let heap ← heap.poke a 0 2
          let heap ← heap.poke a 1 10
          let s ← { s with heap }.updatePost fun pd => { pd with filename := some a }
          s.reread
  | some a => if c = 34 then endFilename a s else filenameByte c a s

/-- The block of a boundary with room for one more character, its size, and the heap. -/
def growBoundary (a : Addr) (b : Boundary) (heap : Heap) : Option Addr × UInt8 × Heap :=
  if b.index = b.boundarySize then
    let (new, heap) := heap.memRealloc a b.boundarySize.toUInt16 10
    (new, b.boundarySize + 10, heap)
  else (some a, b.boundarySize, heap)

/-- A character of the boundary. -/
def boundaryByte (c : UInt8) (b : Boundary) (s : Parse) : Option Flow := do
  let ref ← b.boundaryRef
  match ref with
  | .crlfcrlf => none
  | .block a => do
      let (ref, size, heap) := growBoundary a b s.heap
      let s := { s with heap }
      match ref with
      | none => (s.updateBoundary fun b => { b with boundaryRef := none }).map Parse.notFound
      | some a => do
          let heap ← s.heap.poke a b.index.toNat c
          let s ← { s with heap }.updateBoundary fun b =>
            { b with boundaryRef := some (.block a), boundarySize := size, index := b.index + 1 }
          s.reread

/-- The end of the boundary: it is copied behind `"\n\r\n--"`, and its buffer allocated. -/
def endBoundary (p : Program) (block : Addr) (b : Boundary) (s : Parse) : Option Flow := do
  let ref ← b.boundaryRef
  match ref with
  | .crlfcrlf => none
  | .block a =>
      match s.heap.memAlloc (b.index.toUInt16 + 5) with
      | (none, heap) => some (Parse.notFound { s with heap })
      | (some new, heap) => do
          let copied := fun (i : Int) =>
            if i = 0 ∨ i = 2 then 10 else if i = 1 then 13 else if i = 3 ∨ i = 4 then 45
            else if 5 ≤ i ∧ i < b.index.toNat + 5 then heap.chars a (i - 5)
            else heap.chars new i
          let heap := { heap with chars := Function.update heap.chars new copied }
          let heap := heap.memFree (some a) b.boundarySize.toUInt16
          let size := b.index + 5
          let (buffer, heap) := heap.memAlloc size.toUInt16
          let s ← { s with heap }.updateBoundary fun b =>
            {
              b with
              boundarySize := size
              boundaryRef := some (.block new)
              index := 255
              boundaryBuffer := .ofOption buffer
            }
          match buffer with
          | none => some (Parse.notFound { s with heap := s.heap.memFree (some block) p.sizeofBoundary })
          | some _ => s.reread

/-- The attribute `BOUNDARY=`. -/
def boundaryAttribute (p : Program) (c : UInt8) (s : Parse) : Option Flow := do
  let pd ← s.post
  let block ← pd.boundary
  let b ← s.boundary
  if c = 13 then endBoundary p block b s else boundaryByte c b s

/-- The attributes of a POST header. -/
def headerAttribute (p : Program) (c blobCurr : UInt8) (s : Parse) : Option Flow :=
  if blobCurr = attributContentType + 128 then
    Parse.reread { s.setState .postContentType with blob := mimesTree }
  else if blobCurr = attributContentLength + 128 then
    (contentLength c s).bind Parse.reread
  else if blobCurr = attributFilename + 128 then
    filename c s
  else if blobCurr = attributBoundary + 128 then
    boundaryAttribute p c s
  else
    s.reread

/-- The boundary structure of a multipart request. -/
def multipart (p : Program) (s : Parse) : Option Flow := do
  let (a, heap) := s.heap.memAlloc p.sizeofBoundary
  let s ← { s with heap }.updatePost fun pd => { pd with boundary := a }
  match a with
  | none => some s.notFound
  | some a => do
      let (ref, heap) := s.heap.memAlloc 10
      let s ← { s with heap }.updateBoundary fun _ =>
        {
          boundaryRef := ref.map .block
          boundaryBuffer := .uninit
          boundarySize := 10
          index := 0
          readyToCount := false
          multiPartCounter := 0
        }
      match ref with
      | none => some (Parse.notFound { s with heap := s.heap.memFree (some a) p.sizeofBoundary })
      | some _ => do
          let s ← s.updatePost fun pd => { pd with contentType := contentTypeMultipart }
          Parse.reread { s.setState .postAttributes with blob := blobHttpHeaderContent }

/-- A content type was read: it has to be one that the resource accepts. -/
def contentType (p : Program) (blobCurr : UInt8) (s : Parse) : Option Flow :=
  if blobCurr - 128 = contentTypeMultipart then
    multipart p s
  else do
    let handler ← s.outputHandler
    let accepted := (p.handler handler).mimesIndex
    let type := if accepted = [] ∨ blobCurr - 128 ∈ accepted then blobCurr - 128 else 255
    let s ← s.updatePost fun pd => { pd with contentType := type }
    if type = 255 then
      some s.notFound
    else
      Parse.reread { s.setState .postAttributes with blob := blobHttpHeaderContent }

/-- A method was read. -/
def command (p : Program) (blobCurr : UInt8) (s : Parse) : Option Flow :=
  if blobCurr = requestPost + 128 then
    match s.heap.memAlloc p.sizeofPostData with
    | (none, heap) =>
        let request := { s.request with postData := none }
        some (Parse.notFound { s with heap, request })
    | (some a, heap) =>
        let ref := CrRef.postData a
        let context := (heap.coroutine ref).currContext
        let heap := heap.setContext ref { context with status := .terminated }
        let heap := heap.setPostData a
          {
            contentType := 255
            contentLength := 0xffff
            boundary := none
            postData := 0
            filename := none
          }
        let request := { s.request with postData := some a, parsingState := .url }
        Parse.reread { s with heap, request, blob := p.urlsTree }
  else
    Parse.reread { s.setState .url with blob := p.urlsTree }

/-- `resources_index[blob_curr - 128]`. A handler above IP is not one of a connection. -/
def selectResource (p : Program) (blobCurr : UInt8) (s : Parse) : Option HandlerRef :=
  match s.outputHandler with
  | some handler => some handler
  | none => do
      if blobCurr < 128 then
        none
      else
        let handler ← p.resourcesIndex (blobCurr - 128)
        if p.isGpIp handler then none else some handler

/-- A space after an URL. -/
def urlSpace (p : Program) (blobCurr : UInt8) (s : Parse) : Option Flow :=
  if s.request.postData.isSome ∧ ¬ s.request.postUrlDetected then
    some s.notFound
  else do
    let handler ← selectResource p blobCurr s
    let s := { s with outputHandler := some handler }
    if s.request.postData.isSome then
      let request := { s.request with parsingState := .postAttributes, readyToSend := false }
      Parse.reread { s with request, blob := blobHttpHeaderContent }
    else
      some (.leave (s.setState .ended))

/-- The beginning of the arguments: their block is allocated and cleared. -/
def beginArgs (p : Program) (blobCurr : UInt8) (s : Parse) : Option Flow := do
  let handler ← selectResource p blobCurr s
  let args := (p.handler handler).args
  let s := { s with
    outputHandler := some handler
    argsSizeRef := args.argsSize
    request := { s.request with readyToSend := false }
  }
  if args.argsSize = 0 then
    s.reread
  else
    match s.heap.memAlloc args.argsSize with
    | (none, heap) =>
        let request := { s.request with args := .null }
        some (Parse.notFound { s with heap, request, blob := args.argsTree })
    | (some a, heap) =>
        let cleared := fun (i : Int) => if 0 ≤ i ∧ i < args.argsSize.toNat then 0 else heap.chars a i
        let heap := { heap with chars := Function.update heap.chars a cleared }
        let request := { s.request with args := .block a }
        some (.again { s with heap, request, blob := args.argsTree })

/-- `args_index[arg_ref_index]` of the handler being served. -/
def argRef (p : Program) (s : Parse) (index : UInt8) : Option ArgRef := do
  let handler ← s.outputHandler
  (p.handler handler).args.argsIndex[index.toNat]?

/-- The beginning of a value: `curr_arg` and, for a string, the room left in its last byte. -/
def beginValue (p : Program) (blobCurr : UInt8) (a : Addr) (s : Parse) : Option Flow := do
  let index := blobCurr - 128
  let ref ← argRef p s index
  let currArg := ref.argOffset.toNat
  let request := { s.request with argRefIndex := index, currArg }
  let s := { s with request }
  match ref.argType with
  | .str => do
      let heap ← s.heap.poke a (currArg + ref.argSize.toNat - 1 : Int) (ref.argSize - 1)
      some (.again { s with heap })
  | _ => some (.again s)

/-- A byte after the name of a resource or of an argument. -/
def resourceOrArgument (p : Program) (c blobCurr : UInt8) (s : Parse) : Option Flow :=
  if c = 32 then
    urlSpace p blobCurr s
  else if c = 63 ∨ (s.request.parsingState = .postArgs ∧ c = 10) then
    beginArgs p blobCurr s
  else
    match decide (c = 61), s.request.args with
    | true, .uninit => none
    | true, .block a => beginValue p blobCurr a s
    | _, _ =>
        if c = 38 then do
          let handler ← s.outputHandler
          Parse.reread { s with blob := (p.handler handler).args.argsTree }
        else
          Parse.reread { s with blob := s.blob.drop 1 }

/-- The stages at a reference, by the parsing state. -/
def referenceStage (p : Program) (c blobCurr : UInt8) (s : Parse) : Option Flow :=
  match s.request.parsingState with
  | .postAttributes => headerAttribute p c blobCurr s
  | .postContentType => contentType p blobCurr s
  | .cmd => command p blobCurr s
  | _ => resourceOrArgument p c blobCurr s

/-- The stages at a reference after the end of a header: the input coroutine, or the end of an
URL and what is read there.
-/
def inputOrReference (p : Program) (c blobCurr : UInt8) (s : Parse) : Option Flow :=
  if s.request.parsingState = .postData then
    some (.input s)
  else if s.request.parsingState = .url ∧ blobCurr = urlPostEnd then
    Flow.andThen (urlEnd s) (referenceStage p c)
  else
    referenceStage p c blobCurr s

/-- `if(blob_curr >= 128 && …)`: `blob` is at a reference. -/
def atReference (p : Program) (c blobCurr : UInt8) (s : Parse) : Option Flow :=
  if blobCurr < 128 then
    some (.next blobCurr s)
  else if s.request.parsingState = .postEnd then
    Flow.andThen (headerEnd p blobCurr s) (inputOrReference p c)
  else
    inputOrReference p c blobCurr s

--------------------------------------------------
-- The stages after a reference
--------------------------------------------------

/-- The detection of the end of a header. -/
def detectHeaderEnd (c blobCurr : UInt8) (s : Parse) : Parse :=
  if s.request.parsingState = .postAttributes ∧ c = 13 then
    { s.setState .postEnd with blob := blobHttpHeaderEnd }
  else if s.request.parsingState = .postEnd ∧ c ≠ blobCurr then
    { s.setState .postAttributes with blob := blobHttpHeaderContent }
  else s

/-- A byte of the value of an argument. -/
def storeValue (ref : ArgRef) (c : UInt8) (a : Addr) (s : Parse) : Option Parse := do
  let base := s.request.currArg
  match ref.argType with
  | .str =>
      let last : Int := base + ref.argSize.toNat - 1
      let room := s.heap.chars a last
      if room = 0 then
        some s
      else do
        let heap ← s.heap.poke a (base + ref.argSize.toNat - room.toNat - 1 : Int) c
        let heap ← heap.poke a last (heap.chars a last - 1)
        some { s with heap }
  | .ui8 => do
      let heap ← s.heap.poke a base (s.heap.chars a base * 10 + (c - 48))
      some { s with heap }
  | .ui16 => do
      let old := (s.heap.chars a base).toUInt16 + (s.heap.chars a (base + 1)).toUInt16 * 256
      let new := old * 10 + (c.toUInt16 - 48)
      let heap ← s.heap.poke a base new.toUInt8
      let heap ← heap.poke a (base + 1) (new >>> 8).toUInt8
      some { s with heap }

/-- A byte inside the value of an argument, or after it. -/
def argumentValue (p : Program) (c : UInt8) (s : Parse) : Option Flow :=
  if c = 38 then do
    let handler ← s.outputHandler
    let request := { s.request with argRefIndex := 128 }
    some (.again { s with request, blob := (p.handler handler).args.argsTree })
  else if c = 32 then
    let request := { s.request with readyToSend := true, parsingState := .ended }
    some (.leave { s with request })
  else do
    let ref ← argRef p s s.request.argRefIndex
    match s.request.args with
    | .block a => (storeValue ref c a s).map .again
    | _ => none

/-- Whether the byte is left out of the walk. -/
def skipsWalk (c blobCurr : UInt8) (s : Parse) : Bool :=
  match s.request.parsingState with
  | .postContentType => c = 32 || c = 58
  | .postAttributes =>
      blobCurr = attributContentLength + 128 || blobCurr = attributBoundary + 128
        || blobCurr = attributFilename + 128
  | _ => false

/-- The walk of the byte through the current array. Attributes are compared in upper case, and
start over on a mismatch.
-/
def walkBlob (c : UInt8) (s : Parse) : Option Flow :=
  let attributes := s.request.parsingState = .postAttributes
  let c := if attributes ∧ c < 123 ∧ 96 < c then c - 97 + 65 else c
  match walk c s.blob.length s.blob with
  | none => none
  | some (some blob) => some (.again { s with blob })
  | some none =>
      if attributes then some (.again { s with blob := blobHttpHeaderContent })
      else some (.again { s with outputHandler := some .http404 })

/-- From the detection of the end of a header to the end of the loop's body. -/
def afterReference (p : Program) (c blobCurr : UInt8) (s : Parse) : Option Flow :=
  let s := detectHeaderEnd c blobCurr s
  if s.request.argRefIndex ≠ 128 then
    argumentValue p c s
  else if s.request.parsingState = .postEnd ∧ blobCurr ≠ headerPostEnd then
    some (.again { s with blob := s.blob.drop 1 })
  else if skipsWalk c blobCurr s then
    some (.again s)
  else
    walkBlob c s

--------------------------------------------------
-- The loop
--------------------------------------------------

/-- The test for the end of a multipart request. -/
def multipartEnded (s : Parse) : Bool :=
  match s.post, s.boundary with
  | some pd, some b => b.readyToCount && pd.contentLength < 3
  | _, _ => false

/-- Whether a byte read by the loop itself counts for the content length. -/
def countsContent (s : Parse) : Bool :=
  s.request.parsingState = .initBuffer || s.request.parsingState = .postArgs
    || s.boundary.any Boundary.readyToCount

/-- The count of a byte read by the loop. -/
def countByte (s : Parse) : Option Parse :=
  if countsContent s then s.updatePost PostData.countDown else some s

/-- The stages in the states of a boundary. -/
def boundaryStage (c blobCurr : UInt8) (s : Parse) : Option Flow :=
  match s.request.parsingState with
  | .initBuffer => initBuffer c blobCurr s
  | .boundary => searchBoundary c s
  | _ => some (.next blobCurr s)

/-- The stages of a turn that read the byte `c`. -/
def parseByte (p : Program) (c blobCurr : UInt8) (s : Parse) : Option Flow := do
  let s ← countByte s
  let flow := Flow.andThen (boundaryStage c blobCurr s) (atReference p c)
  Flow.andThen flow (afterReference p c)

/-- One turn of the loop, with the bytes left. In the state `parsing_post_data` the array is at
a reference, and no byte is read by the loop itself.
-/
def parseTurn (p : Program) (s : Parse) (rest : List UInt8) : Option (Flow × List UInt8) := do
  let blobCurr ← s.blob.head?
  if multipartEnded s then
    let request := { s.request with readyToSend := true, parsingState := .ended }
    some (.leave { s with request }, rest)
  else if s.request.parsingState = .postData then
    if blobCurr < 128 then none else parsePostData p s rest
  else
    match rest with
    | [] => none
    | c :: rest =>
        match parseByte p c blobCurr s with
        | none => none
        | some (.input s) => parsePostData p s rest
        | some flow => some (flow, rest)

/-- The condition of the loop. -/
def parsing (s : Parse) (rest : List UInt8) : Bool :=
  rest ≠ [] && !s.outputHandler.any HandlerRef.isError

/-- How the loop ends: after it, with the bytes that it did not read, or in the `return` of a
failed `cr_prepare`.
-/
inductive Parsed
  | done (s : Parse) (rest : List UInt8)
  | quit (s : Parse)

/-- The loop. Each turn reads a byte or brings the next turn that does one step nearer. -/
def parseLoop (p : Program) : Nat → Parse → List UInt8 → Option Parsed
  | 0, _, _ => none
  | fuel + 1, s, rest =>
      if parsing s rest then
        match parseTurn p s rest with
        | some (.again s, rest) => parseLoop p fuel s rest
        | some (.leave s, rest) => some (.done s rest)
        | some (.quit s, _) => some (.quit s)
        | _ => none
      else some (.done s rest)

end Smews.Input
