import Smews.Input.Allocations

/-! The handlers that the parser selects: besides the one it starts with, these are the pages and the resources of the
build, never a control packet.
-/

namespace Smews.Input

open Smews.Core Partial

variable {p : Program} {Q : Option HandlerRef → Prop}

/-- The property holds of the handler that a stage leaves. -/
def Handles (Q : Option HandlerRef → Prop) (flow : Option Flow) : Prop :=
  Ensures flow fun flow => Q flow.parse.outputHandler

variable {s : Parse} (held : Q s.outputHandler)

theorem Handles.andThen {flow : Option Flow} {stage : UInt8 → Parse → Option Flow}
    (first : Handles Q flow) (next : ∀ blobCurr s, Q s.outputHandler → Handles Q (stage blobCurr s))
    : Handles Q (Flow.andThen flow stage) := by
  unfold Flow.andThen
  split
  · exact next _ _ (first _ rfl)
  · exact first

include held

--------------------------------------------------
-- Stages that leave the handler alone
--------------------------------------------------

theorem Parse.reread_handles : Handles Q s.reread := .map fun _ _ => held

theorem Parse.updatePost_handles (f : PostData → PostData)
    : Ensures (s.updatePost f) fun s => Q s.outputHandler :=
  .bind .trivial fun _ _ => .some held

theorem Parse.updateBoundary_handles (f : Boundary → Boundary)
    : Ensures (s.updateBoundary f) fun s => Q s.outputHandler :=
  .bind .trivial fun _ _ => .bind .trivial fun _ _ => .some held

theorem initBuffer_handles (c blobCurr : UInt8) : Handles Q (initBuffer c blobCurr s) := by
  refine .bind .trivial fun b _ => .bind .trivial fun buffer _ => .bind .trivial fun ref _ => ?_
  refine .bind .trivial fun heap _ => .bind (Parse.updateBoundary_handles (by exact held) _) fun s held => ?_
  refine .ite (fun _ => .ite (fun _ => .none) fun _ => .ite (fun _ => .map ?_) ?_) ?_
  · apply Parse.updateBoundary_handles
    exact held
  · exact fun _ => .some held
  · exact fun _ => .some held

theorem searchBoundary_handles (c : UInt8) : Handles Q (searchBoundary c s) := by
  refine .bind .trivial fun b _ => .bind .trivial fun buffer _ => .bind .trivial fun ref _ => ?_
  refine .ite (fun _ => .none) fun _ => .ite (fun _ => .map ?_) fun _ => ?_
  · apply Parse.updateBoundary_handles
    exact held
  · refine .bind .trivial fun heap _ => .map ?_
    apply Parse.updateBoundary_handles
    exact held

theorem growFilename_handles (used allocated : UInt8) (a : Addr)
    : Ensures (growFilename used allocated a s) fun grown => Q grown.2.outputHandler := by
  refine .ite (fun _ => ?_) fun _ => .some held
  refine .bind (Parse.updatePost_handles (by exact held) _) fun s held => ?_
  split
  · exact .some held
  · exact .bind .trivial fun _ _ => .some held

theorem storeValue_handles (ref : ArgRef) (c : UInt8) (a : Addr)
    : Ensures (storeValue ref c a s) fun s => Q s.outputHandler := by
  unfold storeValue
  dsimp only
  split
  · exact .ite (fun _ => .some held) fun _ => .bind .trivial fun _ _ => .bind .trivial fun _ _ => .some held
  · exact .bind .trivial fun _ _ => .some held
  · exact .bind .trivial fun _ _ => .bind .trivial fun _ _ => .some held

theorem argumentValue_handles (c : UInt8) : Handles Q (argumentValue p c s) := by
  refine .ite (fun _ => .bind .trivial fun handler _ => .some held) fun _ => ?_
  refine .ite (fun _ => .some held) fun _ => .bind .trivial fun ref _ => ?_
  split
  · exact .map (storeValue_handles held ref c _)
  · exact .none

theorem detectHeaderEnd_handles (c blobCurr : UInt8) : Q (detectHeaderEnd c blobCurr s).outputHandler := by
  unfold detectHeaderEnd
  split
  · exact held
  · split <;> exact held

theorem countByte_handles : Ensures (countByte s) fun s => Q s.outputHandler :=
  .ite (fun _ => Parse.updatePost_handles held _) fun _ => .some held

theorem boundaryStage_handles (c blobCurr : UInt8) : Handles Q (boundaryStage c blobCurr s) := by
  unfold boundaryStage
  split
  · exact initBuffer_handles held c blobCurr
  · exact searchBoundary_handles held c
  · exact .some held

theorem beginValue_handles (blobCurr : UInt8) (a : Addr) : Handles Q (beginValue p blobCurr a s) := by
  refine .bind .trivial fun ref _ => ?_
  dsimp only
  split
  · exact .bind .trivial fun _ _ => .some held
  · exact .some held

theorem freeFilename_handles : Ensures (freeFilename s) fun s => Q s.outputHandler := by
  refine .bind .trivial fun pd _ => ?_
  split
  · exact .some held
  · exact .bind .trivial fun _ _ => Parse.updatePost_handles (by exact held) _

--------------------------------------------------
-- Stages that may select one
--------------------------------------------------

variable (build : ∀ h, p.isControl h = false → Q (some h))
include build

omit held in
/-- A failure. -/
theorem Parse.notFound_handles : Handles Q (some s.notFound) := .some (build .http404 rfl)

theorem urlEnd_handles : Handles Q (urlEnd s) := by
  unfold urlEnd
  split
  · exact Parse.notFound_handles build
  · exact Parse.reread_handles (by exact held)

/-- The handler of the build behind a reference, unless there is one. -/
theorem selectResource_handles (blobCurr : UInt8) : Ensures (selectResource p blobCurr s) fun h => Q (some h) := by
  unfold selectResource
  cases selected : s.outputHandler with
  | some handler =>
      rw [selected] at held
      exact .some held
  | none =>
      refine .ite (fun _ => .none) fun _ => .bind .trivial fun handler index => .ite (fun _ => .none) fun _ => .some ?_
      obtain ⟨-, eq⟩ := Option.ite_none_right_eq_some.mp index
      rw [← Option.some.inj eq]
      refine build _ ?_
      have resource := p.resource_ne_control (blobCurr - 128).toNat
      simp only [Program.isControl, Program.handler]

theorem endFilename_handles (a : Addr) : Handles Q (endFilename a s) := by
  unfold endFilename
  dsimp only
  split
  · exact Parse.notFound_handles build
  · refine .ite (fun _ => ?_) fun _ => .none
    refine .bind (Parse.updatePost_handles (by exact held) _) fun s held => ?_
    exact Parse.reread_handles held

theorem emptyLineBoundary_handles (blobCurr : UInt8) : Handles Q (emptyLineBoundary p blobCurr s) := by
  unfold emptyLineBoundary
  generalize s.heap.memAlloc p.sizeofBoundary = allocation
  obtain ⟨a, heap⟩ := allocation
  refine .bind (Parse.updatePost_handles (by exact held) _) fun s held => ?_
  cases a with
  | none => exact Parse.notFound_handles build
  | some a =>
      dsimp only
      generalize s.heap.memAlloc 4 = allocation
      obtain ⟨buffer, heap⟩ := allocation
      refine .bind (Parse.updateBoundary_handles (by exact held) _) fun s held => ?_
      cases buffer with
      | none => exact .some (build .http404 rfl)
      | some buffer => exact .some held

theorem headerEnd_handles (blobCurr : UInt8) : Handles Q (headerEnd p blobCurr s) := by
  refine .bind .trivial fun pd _ => .ite (fun _ => .some (build .http505 rfl)) fun _ => .ite (fun _ => ?_) fun _ => ?_
  · refine .bind (Parse.updateBoundary_handles held _) fun s held => ?_
    exact .ite (fun _ => .some held) fun _ => .some held
  · refine .ite (fun _ => .some held) fun _ => .ite (fun _ => ?_) fun _ => .some held
    exact emptyLineBoundary_handles held build blobCurr

theorem filenameByte_handles (c : UInt8) (a : Addr) : Handles Q (filenameByte c a s) := by
  refine .bind (growFilename_handles held _ _ a) fun ⟨grown, s⟩ held => ?_
  cases grown with
  | none => exact Parse.notFound_handles build
  | some a => exact .bind .trivial fun _ _ => .bind .trivial fun _ _ => Parse.reread_handles held

theorem filename_handles (c : UInt8) : Handles Q (filename c s) := by
  refine .bind .trivial fun pd _ => ?_
  split
  · split
    · exact .some (build .http404 rfl)
    · refine .bind .trivial fun _ _ => .bind .trivial fun _ _ => ?_
      exact .bind (Parse.updatePost_handles (by exact held) _) fun s held => Parse.reread_handles held
  · refine .ite (fun _ => ?_) fun _ => ?_
    · exact endFilename_handles held build _
    · exact filenameByte_handles held build c _

theorem boundaryByte_handles (c : UInt8) (b : Boundary) : Handles Q (boundaryByte c b s) := by
  refine .bind .trivial fun ref _ => ?_
  cases ref with
  | crlfcrlf => exact .none
  | block a =>
      dsimp only
      split
      · exact .map ((Parse.updateBoundary_handles (by exact held) _).imp fun s held =>
          build .http404 rfl)
      · refine .bind .trivial fun _ _ => ?_
        exact .bind (Parse.updateBoundary_handles (by exact held) _) fun s held => Parse.reread_handles held

theorem endBoundary_handles (block : Addr) (b : Boundary) : Handles Q (endBoundary p block b s) := by
  refine .bind .trivial fun ref _ => ?_
  cases ref with
  | crlfcrlf => exact .none
  | block a =>
      dsimp only
      split
      · exact Parse.notFound_handles build
      · refine .bind (Parse.updateBoundary_handles (by exact held) _) fun s held => ?_
        split
        · exact .some (build .http404 rfl)
        · exact Parse.reread_handles held

theorem headerAttribute_handles (c blobCurr : UInt8) : Handles Q (headerAttribute p c blobCurr s) := by
  refine .ite (fun _ => ?_) fun _ => .ite (fun _ => ?_) fun _ => .ite (fun _ => ?_) fun _ => ?_
  · exact Parse.reread_handles (by exact held)
  · exact .bind (Parse.updatePost_handles held _) fun s held => Parse.reread_handles held
  · exact filename_handles held build c
  · refine .ite (fun _ => ?_) fun _ => Parse.reread_handles held
    refine .bind .trivial fun pd _ => .bind .trivial fun block _ => .bind .trivial fun b _ => ?_
    refine .ite (fun _ => ?_) fun _ => ?_
    · exact endBoundary_handles held build block b
    · exact boundaryByte_handles held build c b

theorem multipart_handles : Handles Q (multipart p s) := by
  unfold multipart
  generalize s.heap.memAlloc p.sizeofBoundary = allocation
  obtain ⟨a, heap⟩ := allocation
  refine .bind (Parse.updatePost_handles (by exact held) _) fun s held => ?_
  cases a with
  | none => exact Parse.notFound_handles build
  | some a =>
      dsimp only
      generalize s.heap.memAlloc 10 = allocation
      obtain ⟨ref, heap⟩ := allocation
      refine .bind (Parse.updateBoundary_handles (by exact held) _) fun s held => ?_
      cases ref with
      | none => exact .some (build .http404 rfl)
      | some ref =>
          exact .bind (Parse.updatePost_handles held _) fun s held => Parse.reread_handles (by exact held)

theorem contentType_handles (blobCurr : UInt8) : Handles Q (contentType p blobCurr s) := by
  refine .ite (fun _ => multipart_handles held build) fun _ => .bind .trivial fun handler _ => ?_
  refine .bind (Parse.updatePost_handles held _) fun s held => .ite (fun _ => Parse.notFound_handles build) fun _ => ?_
  exact Parse.reread_handles (by exact held)

theorem command_handles (blobCurr : UInt8) : Handles Q (command p blobCurr s) := by
  refine .ite (fun _ => ?_) fun _ => Parse.reread_handles (by exact held)
  split
  · exact .some (build .http404 rfl)
  · exact Parse.reread_handles (by exact held)

theorem urlSpace_handles (blobCurr : UInt8) : Handles Q (urlSpace p blobCurr s) := by
  refine .ite (fun _ => Parse.notFound_handles build) fun _ => ?_
  refine .bind (selectResource_handles held build blobCurr) fun handler held => ?_
  exact .ite (fun _ => Parse.reread_handles (by exact held)) fun _ => .some held

theorem beginArgs_handles (blobCurr : UInt8) : Handles Q (beginArgs p blobCurr s) := by
  refine .bind (selectResource_handles held build blobCurr) fun handler held => .ite (fun _ => ?_) fun _ => ?_
  · exact Parse.reread_handles (by exact held)
  · split
    · exact .some (build .http404 rfl)
    · exact .some held

theorem resourceOrArgument_handles (c blobCurr : UInt8) : Handles Q (resourceOrArgument p c blobCurr s) := by
  refine .ite (fun _ => urlSpace_handles held build blobCurr) fun _ => .ite (fun _ => ?_) fun _ => ?_
  · exact beginArgs_handles held build blobCurr
  · split
    · exact .none
    · exact beginValue_handles held blobCurr _
    · refine .ite (fun _ => .bind .trivial fun handler _ => ?_) fun _ => ?_
      all_goals exact Parse.reread_handles (by exact held)

theorem referenceStage_handles (c blobCurr : UInt8) : Handles Q (referenceStage p c blobCurr s) := by
  unfold referenceStage
  split
  · exact headerAttribute_handles held build c blobCurr
  · exact contentType_handles held build blobCurr
  · exact command_handles held build blobCurr
  · exact resourceOrArgument_handles held build c blobCurr

theorem inputOrReference_handles (c blobCurr : UInt8) : Handles Q (inputOrReference p c blobCurr s) := by
  refine .ite (fun _ => .some held) fun _ => .ite (fun _ => ?_) fun _ => ?_
  · exact Handles.andThen (urlEnd_handles held build) fun blobCurr s held => referenceStage_handles held build c blobCurr
  · exact referenceStage_handles held build c blobCurr

theorem atReference_handles (c blobCurr : UInt8) : Handles Q (atReference p c blobCurr s) := by
  refine .ite (fun _ => .some held) fun _ => .ite (fun _ => ?_) fun _ => ?_
  · exact Handles.andThen (headerEnd_handles held build blobCurr) fun blobCurr s held =>
      inputOrReference_handles held build c blobCurr
  · exact inputOrReference_handles held build c blobCurr

theorem walkBlob_handles (c : UInt8) : Handles Q (walkBlob c s) := by
  unfold walkBlob
  dsimp only
  split
  · exact .none
  · exact .some held
  · exact .ite (fun _ => .some held) fun _ => .some (build .http404 rfl)

theorem afterReference_handles (c blobCurr : UInt8) : Handles Q (afterReference p c blobCurr s) := by
  have detected := detectHeaderEnd_handles held c blobCurr
  unfold afterReference
  generalize detectHeaderEnd c blobCurr s = s at detected ⊢
  refine .ite (fun _ => argumentValue_handles detected c) fun _ => ?_
  refine .ite (fun _ => .some detected) fun _ => .ite (fun _ => .some detected) fun _ => ?_
  exact walkBlob_handles detected build c

/-- A turn that reads a byte. -/
theorem parseByte_handles (c blobCurr : UInt8) : Handles Q (parseByte p c blobCurr s) := by
  refine .bind (countByte_handles held) fun s held => ?_
  refine Handles.andThen (Handles.andThen (boundaryStage_handles held c blobCurr) fun blobCurr s held => ?_)
    fun blobCurr s held => ?_
  · exact atReference_handles held build c blobCurr
  · exact afterReference_handles held build c blobCurr

--------------------------------------------------
-- A segment
--------------------------------------------------

omit build in
theorem finishInput_handles (post : Addr) (value : Nat) : Handles Q (finishInput post value s) := by
  refine .bind (Parse.updatePost_handles (by exact held) _) fun s held => ?_
  refine .bind (freeFilename_handles (by exact held)) fun s held => ?_
  split
  · exact .some held
  · refine .bind .trivial fun pd _ => .bind (Parse.updateBoundary_handles held _) fun s held => ?_
    refine .ite (fun _ => .some ?_) fun _ => .some ?_
    all_goals
      show Q (Parse.outputHandler _)
      split <;> exact held

omit build in
theorem parsePostData_handles (rest : List UInt8)
    : Ensures (parsePostData p s rest) fun r => Q r.1.parse.outputHandler := by
  refine .bind .trivial fun post _ => .ite (fun _ => ?_) fun _ => ?_
  · exact .bind (Parse.updateBoundary_handles held _) fun s held => .some held
  · have prepared : Ensures (prepareInput p post s) fun r => Q r.2.outputHandler :=
      .ite (fun _ => .bind .trivial fun _ _ => .bind .trivial fun _ _ => .bind .trivial fun _ _ => .some held)
        fun _ => .some held
    refine .bind prepared fun ⟨_, s⟩ held => .ite (fun _ => ?_) fun _ => .some held
    refine .bind .trivial fun ⟨fed, heap, rest⟩ _ => ?_
    cases fed with
    | suspended frame =>
        dsimp only
        split <;> exact .some held
    | returned value => exact .map (finishInput_handles (by exact held) post value)

theorem parseTurn_handles (rest : List UInt8)
    : Ensures (parseTurn p s rest) fun r => Q r.1.parse.outputHandler := by
  refine .bind .trivial fun blobCurr _ => .ite (fun _ => .some held) fun _ => .ite (fun _ => ?_) fun _ => ?_
  · exact .ite (fun _ => .none) fun _ => parsePostData_handles held rest
  · cases rest with
    | nil => exact .none
    | cons c rest =>
        have parsed := parseByte_handles held build c blobCurr
        dsimp only
        split
        · exact .none
        · rename_i s eq
          exact parsePostData_handles (parsed _ eq) rest
        · rename_i flow _ eq
          exact .some (parsed flow eq)

/-- The loop, by induction on its turns. -/
theorem parseLoop_handles (fuel : Nat) (rest : List UInt8)
    : Ensures (parseLoop p fuel s rest) fun r => Q r.parse.outputHandler := by
  induction fuel generalizing s rest with
  | zero => exact .none
  | succ fuel ih =>
      have turned := parseTurn_handles held build rest
      unfold parseLoop
      split
      · split
        · rename_i s rest eq
          exact ih (turned _ eq) rest
        · rename_i s rest eq
          exact .some (turned _ eq)
        · rename_i s rest eq
          exact .some (turned _ eq)
        · exact .none
      · exact .some held

omit build in
theorem finishSegment_handles (dropped : List UInt8)
    : Ensures (finishSegment p s dropped) fun o => ∀ h, o.selected = some h → Q (some h) := by
  have ended : Ensures (detectEnd s) fun s => Q s.outputHandler :=
    .bind .trivial fun _ _ => .ite (fun _ => .some held) fun _ => .some held
  refine .bind ended fun s held => ?_
  have selected {h handler : HandlerRef} (handled : s.outputHandler = some handler)
      (eq : (if s.request.parsingState = .cmd then none else some handler) = some h)
      : Q (some h) := by
    split at eq
    · cases eq
    · rw [← eq, ← handled]
      exact held
  split
  · refine .some fun h eq => ?_
    cases eq
  · next handler handled =>
    refine .ite (fun _ => .bind .trivial fun _ _ => .bind .trivial fun _ _ => ?_) fun _ => ?_
    all_goals exact .some fun h eq => selected handled eq

omit held in
/-- The handler that the parsing of a segment selects, when it starts with one or none. -/
theorem parseSegment_selected {r : Request} {heap : Heap} {handler : Option HandlerRef} {bytes : List UInt8}
    {o : Outcome} {h : HandlerRef} (free : Q none) (held : Q handler)
    (parse : parseSegment p r heap handler bytes = some (.parsed o)) (selected : o.selected = some h)
    : Q (some h) := by
  have started : Ensures (startSegment p r heap handler) fun s => Q s.outputHandler := by
    have first : Q (if r.parsingState = .out then none else handler) := by
      split
      · exact free
      · exact held
    exact .ite (fun _ => .some first) fun _ => .bind .trivial fun _ _ => .bind .trivial fun _ _ => .some first
  have ends : Ensures (parseSegment p r heap handler bytes) fun segmented =>
      ∀ o, segmented = .parsed o → ∀ h, o.selected = some h → Q (some h) := by
    refine .bind started fun s held => .bind (parseLoop_handles held build _ bytes) fun parsed held => ?_
    cases parsed with
    | done s rest =>
        refine .map ((finishSegment_handles held rest).imp fun o each o' eq => ?_)
        cases eq
        exact each
    | quit s =>
        refine .some fun o eq => ?_
        cases eq
  exact ends _ parse o rfl h selected

end Smews.Input
