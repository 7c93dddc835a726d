import Smews.Input.Segment
import Smews.Library.Partial

/-! The parser reaches the allocator through `mem_alloc`, `mem_realloc` and `mem_free` only:
what these keep holds after every segment.
-/

namespace Smews.Input

open Smews.Core Partial

--------------------------------------------------
-- Properties of the allocator
--------------------------------------------------

/-- A property of the allocator's state and history that its calls keep. -/
structure AllocatorInv (Inv : Heap → Prop) : Prop where
  memAlloc : ∀ {h} n, Inv h → Inv (h.memAlloc n).2
  memFree : ∀ {h} a n, Inv h → Inv (h.memFree a n)
  congr : ∀ {h h'}, Inv h → h'.next = h.next → h'.calls = h.calls → Inv h'

variable {Inv : Heap → Prop} {p : Program}

namespace AllocatorInv

variable {h : Heap} (k : AllocatorInv Inv) (inv : Inv h)
include k inv

theorem memFreePointer (a : Pointer) (n : UInt16) : Ensures (h.memFreePointer a n) Inv := by
  cases a with
  | uninit => exact .none
  | null => exact .some inv
  | block a => exact .some (k.memFree (some a) n inv)

theorem memRealloc (a : Addr) (n m : UInt16) : Inv (h.memRealloc a n m).2 := by
  have allocated := k.memAlloc (n + m) inv
  unfold Heap.memRealloc
  cases alloc : h.memAlloc (n + m) with
  | mk new heap =>
  rw [alloc] at allocated
  cases new with
  | none => exact k.memFree (some a) n allocated
  | some b => exact k.memFree (some a) n (k.congr allocated rfl rfl)

theorem poke (a : Addr) (i : Int) (c : UInt8) : Ensures (h.poke a i c) Inv :=
  .ite (fun _ => .some (k.congr inv rfl rfl)) fun _ => .none

theorem crEvict : Inv h.crEvict.2 := by
  unfold Heap.crEvict
  split
  · exact inv
  · rename_i r _
    have allocated := k.memAlloc (h.coroutine r).currContext.sp inv
    dsimp only
    split <;> rename_i alloc <;> rw [alloc] at allocated <;> exact k.congr allocated rfl rfl

theorem crInstall (r : CrRef) : Inv (h.crInstall r) := by
  unfold Heap.crInstall
  dsimp only
  split
  · exact k.congr inv rfl rfl
  · rename_i a _
    have moved : Inv { h with sharedStack := h.savedStack a, crInStack := some r } :=
      k.congr inv rfl rfl
    exact k.congr (k.memFree (some a) (h.coroutine r).currContext.stackSize moved) rfl rfl

theorem crPrepare (r : CrRef) : Inv (h.crPrepare r).2 := by
  have evicted := k.crEvict inv
  unfold Heap.crPrepare
  split
  · exact inv
  · split <;> rename_i evict <;> rw [evict] at evicted
    · exact evicted
    · exact k.crInstall evicted r

theorem crClean (r : CrRef) : Inv (h.crClean r) := by
  unfold Heap.crClean
  refine k.memFree _ _ ?_
  split
  · exact k.congr inv rfl rfl
  · exact inv

end AllocatorInv

--------------------------------------------------
-- Stages
--------------------------------------------------

/-- The state that a stage leaves. -/
def Flow.parse : Flow → Parse
  | .next _ s | .input s | .again s | .leave s | .quit s => s

/-- The property holds of the heap that a stage leaves. -/
def Keeps (Inv : Heap → Prop) (flow : Option Flow) : Prop :=
  Ensures flow fun flow => Inv flow.parse.heap

variable (k : AllocatorInv Inv) {s : Parse} (inv : Inv s.heap)

theorem Keeps.andThen {flow : Option Flow} {stage : UInt8 → Parse → Option Flow}
    (first : Keeps Inv flow) (next : ∀ blobCurr s, Inv s.heap → Keeps Inv (stage blobCurr s))
    : Keeps Inv (Flow.andThen flow stage) := by
  unfold Flow.andThen
  split
  · exact next _ _ (first _ rfl)
  · exact first

include inv

theorem Parse.reread_keeps : Keeps Inv s.reread := .map fun _ _ => inv

include k

theorem Parse.updatePost_keeps (f : PostData → PostData)
    : Ensures (s.updatePost f) fun s => Inv s.heap :=
  .bind .trivial fun _ _ => .some (k.congr inv rfl rfl)

theorem Parse.updateBoundary_keeps (f : Boundary → Boundary)
    : Ensures (s.updateBoundary f) fun s => Inv s.heap :=
  .bind .trivial fun _ _ => .bind .trivial fun _ _ => .some (k.congr inv rfl rfl)

theorem initBuffer_keeps (c blobCurr : UInt8) : Keeps Inv (initBuffer c blobCurr s) := by
  refine .bind .trivial fun b _ => .bind .trivial fun buffer _ => .bind .trivial fun ref _ => ?_
  refine .bind (k.poke inv buffer _ c) fun heap inv => ?_
  refine .bind (Parse.updateBoundary_keeps k (by exact inv) _) fun s inv => ?_
  refine .ite (fun _ => .ite (fun _ => .none) fun _ => .ite (fun _ => .map ?_) ?_) ?_
  · apply Parse.updateBoundary_keeps k
    exact inv
  · exact fun _ => .some inv
  · exact fun _ => .some inv

theorem searchBoundary_keeps (c : UInt8) : Keeps Inv (searchBoundary c s) := by
  refine .bind .trivial fun b _ => .bind .trivial fun buffer _ => .bind .trivial fun ref _ => ?_
  refine .ite (fun _ => .none) fun _ => .ite (fun _ => .map ?_) fun _ => ?_
  · apply Parse.updateBoundary_keeps k
    exact inv
  · refine .bind (k.poke inv buffer _ c) fun heap inv => .map ?_
    apply Parse.updateBoundary_keeps k
    exact inv

theorem emptyLineBoundary_keeps (blobCurr : UInt8)
    : Keeps Inv (emptyLineBoundary p blobCurr s) := by
  have allocated := k.memAlloc p.sizeofBoundary inv
  unfold emptyLineBoundary
  generalize s.heap.memAlloc p.sizeofBoundary = allocation at allocated ⊢
  obtain ⟨a, heap⟩ := allocation
  refine .bind (Parse.updatePost_keeps k (by exact allocated) _) fun s inv => ?_
  cases a with
  | none => exact .some inv
  | some a =>
      have allocated := k.memAlloc 4 inv
      dsimp only
      generalize s.heap.memAlloc 4 = allocation at allocated ⊢
      obtain ⟨buffer, heap⟩ := allocation
      refine .bind (Parse.updateBoundary_keeps k (by exact allocated) _) fun s inv => ?_
      cases buffer with
      | none => exact .some (k.memFree (some a) p.sizeofBoundary inv)
      | some buffer => exact .some inv

theorem headerEnd_keeps (blobCurr : UInt8) : Keeps Inv (headerEnd p blobCurr s) := by
  refine .bind .trivial fun pd _ => .ite (fun _ => .some inv) fun _ => .ite (fun _ => ?_) fun _ => ?_
  · refine .bind (Parse.updateBoundary_keeps k inv _) fun s inv => ?_
    exact .ite (fun _ => .some inv) fun _ => .some inv
  · refine .ite (fun _ => .some inv) fun _ => .ite (fun _ => ?_) fun _ => .some inv
    exact emptyLineBoundary_keeps k inv blobCurr

omit k in
theorem urlEnd_keeps : Keeps Inv (urlEnd s) := by
  unfold urlEnd
  split
  · exact .some inv
  · apply Parse.reread_keeps
    exact inv

theorem endFilename_keeps (a : Addr) : Keeps Inv (endFilename a s) := by
  unfold endFilename
  have allocated := k.memAlloc (UInt16.ofInt (charToInt (s.heap.chars a 0) - 1)) inv
  dsimp only
  split <;> rename_i alloc <;> rw [alloc] at allocated
  · exact .some allocated
  · rename_i new heap
    refine .ite (fun _ => ?_) fun _ => .none
    have freed (chars : Addr → Int → UInt8) (n : UInt16)
        : Inv (Heap.memFree { heap with chars } (some a) n) := by
      apply k.memFree
      exact k.congr allocated rfl rfl
    refine .bind (Parse.updatePost_keeps k (freed _ _) _) fun s inv => ?_
    apply Parse.reread_keeps
    exact inv

theorem growFilename_keeps (used allocated : UInt8) (a : Addr)
    : Ensures (growFilename used allocated a s) fun grown => Inv grown.2.heap := by
  refine .ite (fun _ => ?_) fun _ => .some inv
  refine .bind (Parse.updatePost_keeps k (k.memRealloc inv a _ 10) _) fun s inv => ?_
  split
  · exact .some inv
  · exact .bind (k.poke inv _ _ _) fun heap inv => .some inv

theorem filenameByte_keeps (c : UInt8) (a : Addr) : Keeps Inv (filenameByte c a s) := by
  refine .bind (growFilename_keeps k inv _ _ a) fun ⟨grown, s⟩ inv => ?_
  cases grown with
  | none => exact .some inv
  | some a =>
      refine .bind (k.poke inv a _ c) fun heap inv => .bind (k.poke inv a _ _) fun heap inv => ?_
      apply Parse.reread_keeps
      exact inv

theorem filename_keeps (c : UInt8) : Keeps Inv (filename c s) := by
  refine .bind .trivial fun pd _ => ?_
  split
  · have allocated := k.memAlloc 10 inv
    split <;> rename_i alloc <;> rw [alloc] at allocated
    · exact .some allocated
    · rename_i a heap
      refine .bind (k.poke allocated a _ _) fun heap inv => ?_
      refine .bind (k.poke inv a _ _) fun heap inv => ?_
      refine .bind (Parse.updatePost_keeps k (by exact inv) _) fun s inv => ?_
      exact Parse.reread_keeps inv
  · rename_i a _
    refine .ite (fun _ => ?_) fun _ => ?_
    · exact endFilename_keeps k inv a
    · exact filenameByte_keeps k inv c a

theorem growBoundary_keeps (a : Addr) (b : Boundary)
    : Inv (growBoundary a b s.heap).2.2 := by
  unfold growBoundary
  split
  · exact k.memRealloc inv a _ 10
  · exact inv

theorem boundaryByte_keeps (c : UInt8) (b : Boundary) : Keeps Inv (boundaryByte c b s) := by
  refine .bind .trivial fun ref _ => ?_
  cases ref with
  | crlfcrlf => exact .none
  | block a =>
      have grown := growBoundary_keeps k inv a b
      dsimp only
      split
      · refine .map ?_
        apply Parse.updateBoundary_keeps k
        exact grown
      · refine .bind (k.poke grown _ _ c) fun heap inv => ?_
        refine .bind (Parse.updateBoundary_keeps k (by exact inv) _) fun s inv => ?_
        exact Parse.reread_keeps inv

theorem endBoundary_keeps (block : Addr) (b : Boundary)
    : Keeps Inv (endBoundary p block b s) := by
  refine .bind .trivial fun ref _ => ?_
  cases ref with
  | crlfcrlf => exact .none
  | block a =>
      have allocated := k.memAlloc (b.index.toUInt16 + 5) inv
      dsimp only
      split <;> rename_i alloc <;> rw [alloc] at allocated
      · exact .some allocated
      · rename_i new heap
        have freed (chars : Addr → Int → UInt8) (n : UInt16)
            : Inv (Heap.memFree { heap with chars } (some a) n) := by
          apply k.memFree
          exact k.congr allocated rfl rfl
        refine .bind (Parse.updateBoundary_keeps k (k.memAlloc _ (freed _ _)) _) fun s inv => ?_
        split
        · exact .some (k.memFree (some block) p.sizeofBoundary inv)
        · exact Parse.reread_keeps inv

theorem boundaryAttribute_keeps (c : UInt8) : Keeps Inv (boundaryAttribute p c s) := by
  refine .bind .trivial fun pd _ => .bind .trivial fun block _ => .bind .trivial fun b _ => ?_
  refine .ite (fun _ => ?_) fun _ => ?_
  · exact endBoundary_keeps k inv block b
  · exact boundaryByte_keeps k inv c b

theorem headerAttribute_keeps (c blobCurr : UInt8)
    : Keeps Inv (headerAttribute p c blobCurr s) := by
  refine .ite (fun _ => ?_) fun _ => .ite (fun _ => ?_) fun _ => .ite (fun _ => ?_) fun _ => ?_
  · apply Parse.reread_keeps
    exact inv
  · refine .bind (Parse.updatePost_keeps k inv _) fun s inv => ?_
    exact Parse.reread_keeps inv
  · exact filename_keeps k inv c
  · refine .ite (fun _ => ?_) fun _ => ?_
    · exact boundaryAttribute_keeps k inv c
    · exact Parse.reread_keeps inv

theorem multipart_keeps : Keeps Inv (multipart p s) := by
  have allocated := k.memAlloc p.sizeofBoundary inv
  unfold multipart
  generalize s.heap.memAlloc p.sizeofBoundary = allocation at allocated ⊢
  obtain ⟨a, heap⟩ := allocation
  refine .bind (Parse.updatePost_keeps k (by exact allocated) _) fun s inv => ?_
  cases a with
  | none => exact .some inv
  | some a =>
      have allocated := k.memAlloc 10 inv
      dsimp only
      generalize s.heap.memAlloc 10 = allocation at allocated ⊢
      obtain ⟨ref, heap⟩ := allocation
      refine .bind (Parse.updateBoundary_keeps k (by exact allocated) _) fun s inv => ?_
      cases ref with
      | none => exact .some (k.memFree (some a) p.sizeofBoundary inv)
      | some ref =>
          refine .bind (Parse.updatePost_keeps k inv _) fun s inv => ?_
          apply Parse.reread_keeps
          exact inv

theorem contentType_keeps (blobCurr : UInt8) : Keeps Inv (contentType p blobCurr s) := by
  refine .ite (fun _ => multipart_keeps k inv) fun _ => .bind .trivial fun handler _ => ?_
  refine .bind (Parse.updatePost_keeps k inv _) fun s inv => .ite (fun _ => .some inv) fun _ => ?_
  apply Parse.reread_keeps
  exact inv

theorem command_keeps (blobCurr : UInt8) : Keeps Inv (command p blobCurr s) := by
  refine .ite (fun _ => ?_) fun _ => ?_
  · have allocated := k.memAlloc p.sizeofPostData inv
    split <;> rename_i alloc <;> rw [alloc] at allocated
    · exact .some allocated
    · apply Parse.reread_keeps
      exact k.congr allocated rfl rfl
  · apply Parse.reread_keeps
    exact inv

omit k in
theorem urlSpace_keeps (blobCurr : UInt8) : Keeps Inv (urlSpace p blobCurr s) := by
  refine .ite (fun _ => .some inv) fun _ => .bind .trivial fun handler _ => ?_
  refine .ite (fun _ => ?_) fun _ => .some inv
  apply Parse.reread_keeps
  exact inv

theorem beginArgs_keeps (blobCurr : UInt8) : Keeps Inv (beginArgs p blobCurr s) := by
  refine .bind .trivial fun handler _ => .ite (fun _ => ?_) fun _ => ?_
  · apply Parse.reread_keeps
    exact inv
  · have allocated := k.memAlloc (p.handler handler).args.argsSize inv
    split <;> rename_i alloc <;> rw [alloc] at allocated
    · exact .some allocated
    · exact .some (k.congr allocated rfl rfl)

theorem beginValue_keeps (blobCurr : UInt8) (a : Addr)
    : Keeps Inv (beginValue p blobCurr a s) := by
  refine .bind .trivial fun ref _ => ?_
  dsimp only
  split
  · exact .bind (k.poke inv a _ _) fun heap inv => .some inv
  · exact .some inv

theorem resourceOrArgument_keeps (c blobCurr : UInt8)
    : Keeps Inv (resourceOrArgument p c blobCurr s) := by
  refine .ite (fun _ => urlSpace_keeps inv blobCurr) fun _ => .ite (fun _ => ?_) fun _ => ?_
  · exact beginArgs_keeps k inv blobCurr
  · split
    · exact .none
    · exact beginValue_keeps k inv blobCurr _
    · refine .ite (fun _ => .bind .trivial fun handler _ => ?_) fun _ => ?_
      all_goals
        apply Parse.reread_keeps
        exact inv

theorem referenceStage_keeps (c blobCurr : UInt8)
    : Keeps Inv (referenceStage p c blobCurr s) := by
  unfold referenceStage
  split
  · exact headerAttribute_keeps k inv c blobCurr
  · exact contentType_keeps k inv blobCurr
  · exact command_keeps k inv blobCurr
  · exact resourceOrArgument_keeps k inv c blobCurr

theorem inputOrReference_keeps (c blobCurr : UInt8)
    : Keeps Inv (inputOrReference p c blobCurr s) := by
  refine .ite (fun _ => .some inv) fun _ => .ite (fun _ => ?_) fun _ => ?_
  · exact Keeps.andThen (urlEnd_keeps inv) fun blobCurr s inv => referenceStage_keeps k inv c blobCurr
  · exact referenceStage_keeps k inv c blobCurr

theorem atReference_keeps (c blobCurr : UInt8) : Keeps Inv (atReference p c blobCurr s) := by
  refine .ite (fun _ => .some inv) fun _ => .ite (fun _ => ?_) fun _ => ?_
  · exact Keeps.andThen (headerEnd_keeps k inv blobCurr) fun blobCurr s inv =>
      inputOrReference_keeps k inv c blobCurr
  · exact inputOrReference_keeps k inv c blobCurr

theorem storeValue_keeps (ref : ArgRef) (c : UInt8) (a : Addr)
    : Ensures (storeValue ref c a s) fun s => Inv s.heap := by
  unfold storeValue
  dsimp only
  split
  · refine .ite (fun _ => .some inv) fun _ => ?_
    exact .bind (k.poke inv a _ c) fun heap inv => .bind (k.poke inv a _ _) fun heap inv => .some inv
  · exact .bind (k.poke inv a _ _) fun heap inv => .some inv
  · exact .bind (k.poke inv a _ _) fun heap inv => .bind (k.poke inv a _ _) fun heap inv => .some inv

theorem argumentValue_keeps (c : UInt8) : Keeps Inv (argumentValue p c s) := by
  refine .ite (fun _ => .bind .trivial fun handler _ => .some inv) fun _ => ?_
  refine .ite (fun _ => .some inv) fun _ => .bind .trivial fun ref _ => ?_
  split
  · exact .map (storeValue_keeps k inv ref c _)
  · exact .none

omit k in
theorem walkBlob_keeps (c : UInt8) : Keeps Inv (walkBlob c s) := by
  unfold walkBlob
  dsimp only
  split
  · exact .none
  · exact .some inv
  · exact .ite (fun _ => .some inv) fun _ => .some inv

omit k in
theorem detectHeaderEnd_heap (c blobCurr : UInt8)
    : Inv (detectHeaderEnd c blobCurr s).heap := by
  unfold detectHeaderEnd
  split
  · exact inv
  · split <;> exact inv

theorem afterReference_keeps (c blobCurr : UInt8)
    : Keeps Inv (afterReference p c blobCurr s) := by
  have detected := detectHeaderEnd_heap inv c blobCurr
  unfold afterReference
  generalize detectHeaderEnd c blobCurr s = s at detected ⊢
  refine .ite (fun _ => argumentValue_keeps k detected c) fun _ => ?_
  refine .ite (fun _ => .some detected) fun _ => .ite (fun _ => .some detected) fun _ => ?_
  exact walkBlob_keeps detected c

theorem countByte_keeps : Ensures (countByte s) fun s => Inv s.heap :=
  .ite (fun _ => Parse.updatePost_keeps k inv _) fun _ => .some inv

theorem boundaryStage_keeps (c blobCurr : UInt8) : Keeps Inv (boundaryStage c blobCurr s) := by
  unfold boundaryStage
  split
  · exact initBuffer_keeps k inv c blobCurr
  · exact searchBoundary_keeps k inv c
  · exact .some inv

/-- A turn that reads a byte. -/
theorem parseByte_keeps (c blobCurr : UInt8) : Keeps Inv (parseByte p c blobCurr s) := by
  refine .bind (countByte_keeps k inv) fun s inv => ?_
  refine Keeps.andThen (Keeps.andThen (boundaryStage_keeps k inv c blobCurr) fun blobCurr s inv => ?_)
    fun blobCurr s inv => ?_
  · exact atReference_keeps k inv c blobCurr
  · exact afterReference_keeps k inv c blobCurr

--------------------------------------------------
-- The input coroutine
--------------------------------------------------

theorem freeFilename_keeps : Ensures (freeFilename s) fun s => Inv s.heap := by
  refine .bind .trivial fun pd _ => ?_
  split
  · exact .some inv
  · rename_i a _
    refine .bind .trivial fun length _ => ?_
    apply Parse.updatePost_keeps k
    exact k.memFree (some a) length inv

theorem startInput_keeps (post : Addr) : Ensures (startInput p post s) fun r => Inv r.2.heap := by
  refine .bind .trivial fun handler _ => .bind .trivial fun _ _ => .bind .trivial fun pd _ => ?_
  dsimp only
  generalize prepared : Heap.crPrepare _ (.postData post) = result
  have kept : Inv result.2 := by
    rw [← prepared]
    apply k.crPrepare
    split <;> exact k.congr inv rfl rfl
  exact .some kept

theorem prepareInput_keeps (post : Addr) : Ensures (prepareInput p post s) fun r => Inv r.2.heap :=
  .ite (fun _ => startInput_keeps k inv post) fun _ => .some inv

theorem finishInput_keeps (post : Addr) (value : Nat) : Keeps Inv (finishInput post value s) := by
  have terminated : Inv (s.heap.crTerminate (.postData post)) := k.congr inv rfl rfl
  refine .bind (Parse.updatePost_keeps k (by exact terminated) _) fun s inv => ?_
  refine .bind (freeFilename_keeps k (by exact k.crClean inv _)) fun s inv => ?_
  split
  · exact .some inv
  · rename_i b _
    refine .bind .trivial fun pd _ => .bind (Parse.updateBoundary_keeps k inv _) fun s inv => ?_
    refine .ite (fun _ => .some ?_) fun _ => .some ?_
    all_goals
      show Inv (Parse.heap _)
      split <;> exact inv

omit inv in
theorem takeByte_keeps {h : Heap} (held : Inv h) (post : Addr) (c : UInt8)
    : Ensures (takeByte h post c) fun r => Inv r.2 := by
  unfold takeByte
  dsimp only
  split
  · exact .some (k.congr held rfl rfl)
  · refine .bind .trivial fun buffer _ => .bind .trivial fun ref _ => ?_
    refine .bind (k.poke held buffer _ c) fun heap held => .ite (fun _ => .none) fun _ => ?_
    exact .some (k.congr held rfl rfl)

omit inv in
/-- `dopostin`, by induction on its run. -/
theorem feed_keeps {h : Heap} (held : Inv h) (post : Addr) (cont : Cont) (rest : List UInt8)
    : Ensures (feed post cont h rest) fun r => Inv r.2.1 := by
  induction cont generalizing h rest with
  | ret value => exact .some held
  | outC c cont ih => exact .none
  | inC cont ih =>
      unfold feed
      split
      · exact ih none held rest
      · cases rest with
        | nil => exact .some held
        | cons c rest =>
            dsimp only
            have taken := takeByte_keeps k held post c
            split
            · exact .none
            · rename_i byte h' eq
              exact ih (some byte) (taken _ eq) rest

omit inv in
theorem runInput_keeps {h : Heap} (held : Inv h) (post : Addr) (rest : List UInt8)
    : Ensures (runInput p post h rest) fun r => Inv r.2.1 := by
  unfold runInput
  dsimp only
  split
  · refine .bind .trivial fun start _ => ?_
    apply feed_keeps k
    exact k.congr held rfl rfl
  · unfold resume
    split
    · exact .bind (takeByte_keeps k held post _) fun taken held => feed_keeps k held post _ _
    · exact .none
  · exact .none

theorem runPostData_keeps (post : Addr) (rest : List UInt8)
    : Ensures (runPostData p post s rest) fun r => Inv r.1.parse.heap := by
  refine .bind (runInput_keeps k inv post rest) fun ⟨fed, heap, rest⟩ inv => ?_
  cases fed with
  | suspended frame =>
      dsimp only
      split <;> exact .some (k.congr inv rfl rfl)
  | returned value => exact .map (finishInput_keeps k (by exact inv) post value)

theorem parsePostData_keeps (rest : List UInt8)
    : Ensures (parsePostData p s rest) fun r => Inv r.1.parse.heap := by
  refine .bind .trivial fun post _ => .ite (fun _ => ?_) fun _ => ?_
  · exact .bind (Parse.updateBoundary_keeps k inv _) fun s inv => .some inv
  · refine .bind (prepareInput_keeps k inv post) fun ⟨prepared, s⟩ inv => ?_
    exact .ite (fun _ => runPostData_keeps k inv post rest) fun _ => .some inv

--------------------------------------------------
-- A segment
--------------------------------------------------

theorem parseTurn_keeps (rest : List UInt8) : Ensures (parseTurn p s rest) fun r => Inv r.1.parse.heap := by
  refine .bind .trivial fun blobCurr _ => .ite (fun _ => .some inv) fun _ => .ite (fun _ => ?_) fun _ => ?_
  · exact .ite (fun _ => .none) fun _ => parsePostData_keeps k inv rest
  · cases rest with
    | nil => exact .none
    | cons c rest =>
        have parsed := parseByte_keeps (p := p) k inv c blobCurr
        dsimp only
        split
        · exact .none
        · rename_i s eq
          exact parsePostData_keeps k (parsed _ eq) rest
        · rename_i flow _ eq
          exact .some (parsed flow eq)

/-- The state that the loop leaves. -/
def Parsed.parse : Parsed → Parse
  | .done s _ | .quit s => s

/-- The loop, by induction on its turns. -/
theorem parseLoop_keeps (fuel : Nat) (rest : List UInt8)
    : Ensures (parseLoop p fuel s rest) fun r => Inv r.parse.heap := by
  induction fuel generalizing s rest with
  | zero => exact .none
  | succ fuel ih =>
      have turned := parseTurn_keeps (p := p) k inv rest
      unfold parseLoop
      split
      · split
        · rename_i s rest eq
          exact ih (turned _ eq) rest
        · rename_i s rest eq
          exact .some (turned _ eq)
        · rename_i s rest eq
          exact .some (turned _ eq)
        · exact .none
      · exact .some inv

omit inv in
theorem freeBoundary_keeps {h : Heap} (held : Inv h) (pd : PostData) : Ensures (freeBoundary p pd h) Inv := by
  have freed (b : Boundary) : Ensures (freeBoundaryRef pd b h) Inv := by
    unfold freeBoundaryRef
    split
    · refine .some ?_
      split
      · exact held
      · exact k.memFree _ _ held
    · exact .ite (fun _ => .some held) fun _ => .none
    · exact .some held
  unfold freeBoundary
  split
  · exact .some held
  · rename_i a _
    refine .bind (freed _) fun heap held => .bind (k.memFreePointer held _ _) fun heap held => ?_
    exact .some (k.memFree (some a) p.sizeofBoundary held)

theorem finishSegment_keeps (dropped : List UInt8)
    : Ensures (finishSegment p s dropped) fun o => Inv o.heap := by
  have ended : Ensures (detectEnd s) fun s => Inv s.heap :=
    .bind .trivial fun _ _ => .ite (fun _ => .some inv) fun _ => .some inv
  have cleanedPost {s : Parse} (inv : Inv s.heap) : Ensures (cleanPost p s) fun s => Inv s.heap := by
    unfold cleanPost
    split
    · exact .some inv
    · refine .bind (freeFilename_keeps k inv) fun s inv => .bind .trivial fun pd _ => ?_
      refine .bind (freeBoundary_keeps k inv pd) fun heap inv => ?_
      apply Parse.updatePost_keeps k
      exact inv
  have cleanedError {s : Parse} (inv : Inv s.heap) : Ensures (cleanError p s) fun s => Inv s.heap :=
    .ite (fun _ => .bind (k.memFreePointer (k.memFree _ _ inv) _ _) fun heap inv => .some inv) fun _ => .some inv
  refine .bind ended fun s inv => ?_
  split
  · exact .some inv
  · refine .ite (fun _ => ?_) fun _ => .some inv
    exact .bind (cleanedPost inv) fun s inv => .bind (cleanedError inv) fun s inv => .some inv

/-- The heap that the parsing of a segment leaves. -/
def Segmented.heap : Segmented → Heap
  | .parsed o => o.heap
  | .returned heap => heap

omit inv in
theorem parseSegment_keeps {heap : Heap} (held : Inv heap) (r : Request) (handler : Option HandlerRef) (bytes : List UInt8)
    : Ensures (parseSegment p r heap handler bytes) fun o => Inv o.heap := by
  have started : Ensures (startSegment p r heap handler) fun s => Inv s.heap :=
    .ite (fun _ => .some held) fun _ => .bind .trivial fun _ _ => .bind .trivial fun _ _ => .some held
  refine .bind started fun s inv => .bind (parseLoop_keeps k inv _ bytes) fun parsed inv => ?_
  cases parsed with
  | done s rest => exact .map (finishSegment_keeps k inv rest)
  | quit s => exact .some inv

end Smews.Input
