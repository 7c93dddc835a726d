import Mathlib.Logic.Function.Basic
import Smews.Core.Handlers
import Smews.Memory.Correctness

/-! The objects that live in blocks of the allocator. The heap is typed: a block is known by
its `Addr`, and its contents by the table for its type. What a table holds for a block that
was just allocated is arbitrary, as in memory.
-/

namespace Smews.Core

--------------------------------------------------
-- Coroutines
--------------------------------------------------

/-- `enum cr_status`. -/
inductive CrStatus
  | ready
  | active
  | terminated
deriving DecidableEq, Repr

/-- `struct cr_context_t`. The stack pointer is given by the number of bytes between it and
the end of the shared stack.
-/
structure Context where
  sp : UInt16
  stack : Option Addr
  stackSize : UInt16
  status : CrStatus
deriving DecidableEq, Repr

/-- The union members `func` and `params` of `struct coroutine_t`: the function of a resource
together with its arguments.
-/
inductive CrFunc
  | unset
  | get (handler : HandlerRef) (args : Pointer)
  | postIn (handler : HandlerRef) (contentType partNumber : UInt8) (filename : Option Addr)
      (postData : Nat)
  | postOut (handler : HandlerRef) (contentType : UInt8) (postData : Nat)
deriving DecidableEq, Repr

/-- `struct coroutine_t`. -/
structure Coroutine where
  func : CrFunc
  currContext : Context
deriving DecidableEq, Repr

/-- A `struct coroutine_t *`: the coroutine of a generator service, or of a `post_data_t`. -/
inductive CrRef
  | service (a : Addr)
  | postData (a : Addr)
deriving DecidableEq, Repr

--------------------------------------------------
-- POST requests
--------------------------------------------------

/-- A `char *` to the characters of a boundary: a block, or the string constant that stands
for the boundary of a request without content length.
-/
inductive Chars
  | block (a : Addr)
  | crlfcrlf
deriving DecidableEq, Repr

/-- `struct boundary_t`. -/
structure Boundary where
  boundaryRef : Option Chars
  boundaryBuffer : Pointer
  boundarySize : UInt8
  index : UInt8
  readyToCount : Bool
  multiPartCounter : UInt8
deriving DecidableEq, Repr

/-- The block of `boundary_buffer`. -/
def Boundary.bufferBlock (b : Boundary) : Option Addr :=
  match b.boundaryBuffer with
  | .block a => some a
  | _ => none

/-- `struct post_data_t`, less its coroutine. The value of `post_data` belongs to the
application.
-/
structure PostData where
  contentLength : UInt16
  boundary : Option Addr
  filename : Option Addr
  postData : Nat
  contentType : UInt8
deriving DecidableEq, Repr

/-- `content_length` is counted down unless it is the mark of its absence. -/
def PostData.countDown (pd : PostData) : PostData :=
  if pd.contentLength = 0xffff then pd else { pd with contentLength := pd.contentLength - 1 }

--------------------------------------------------
-- The heap
--------------------------------------------------

/-- A call of the allocator, with the block it is about. -/
inductive MemCall
  | alloc (block : Memory.Block)
  | failed (bytes : UInt16)
  | free (block : Memory.Block)
deriving DecidableEq, Repr

/-- The blocks of the server and the state of `coroutines.c`. `calls` is the history of the
allocator, `exhausted n` tells whether the `n`-th allocation fails, and `starts` counts the
coroutines started.
-/
structure Heap where
  next : Addr
  calls : List MemCall
  exhausted : Nat → Bool
  size : Addr → UInt16
  chars : Addr → Int → UInt8
  boundary : Addr → Boundary
  postData : Addr → PostData
  coroutine : CrRef → Coroutine
  savedStack : Addr → Frame
  crInStack : Option CrRef
  sharedStack : Frame
  starts : Nat

namespace Heap

/-- `mem_alloc`. -/
def memAlloc (h : Heap) (bytes : UInt16) : Option Addr × Heap :=
  if h.exhausted h.next then
    (none, { h with next := h.next + 1, calls := h.calls ++ [.failed bytes] })
  else
    (some h.next, {
      h with
      next := h.next + 1
      calls := h.calls ++ [.alloc ⟨h.next, bytes⟩]
      size := Function.update h.size h.next bytes
    })

/-- `mem_free`, which ignores a null pointer and a size of zero. -/
def memFree (h : Heap) (a : Option Addr) (bytes : UInt16) : Heap :=
  match a with
  | none => h
  | some a => if bytes = 0 then h else { h with calls := h.calls ++ [.free ⟨a, bytes⟩] }

/-- `mem_free` of a pointer that may never have been set. -/
def memFreePointer (h : Heap) (a : Pointer) (bytes : UInt16) : Option Heap :=
  match a with
  | .uninit => none
  | .null => some h
  | .block a => some (h.memFree (some a) bytes)

/-- `mem_realloc`, for blocks of characters. -/
def memRealloc (h : Heap) (a : Addr) (bytes sizeToAdd : UInt16) : Option Addr × Heap :=
  match h.memAlloc (bytes + sizeToAdd) with
  | (none, h) => (none, h.memFree (some a) bytes)
  | (some b, h) =>
      let copied := {
        h with
        chars := Function.update h.chars b fun i =>
          if 0 ≤ i ∧ i < bytes.toNat then h.chars a i else h.chars b i
      }
      (some b, copied.memFree (some a) bytes)

/-- A store of one character, undefined outside the block. -/
def poke (h : Heap) (a : Addr) (i : Int) (c : UInt8) : Option Heap :=
  if 0 ≤ i ∧ i < (h.size a).toNat then
    some { h with chars := Function.update h.chars a (Function.update (h.chars a) i c) }
  else
    none

/-- The character at an offset of a boundary. -/
def peek (h : Heap) (s : Chars) (i : Int) : UInt8 :=
  match s with
  | .block a => h.chars a i
  | .crlfcrlf => if i = 0 ∨ i = 2 then 13 else if i = 1 ∨ i = 3 then 10 else 0

/-- The stores of consecutive characters from the beginning of a block on. -/
def storeBytes (h : Heap) (a : Addr) (bytes : List UInt8) : Heap :=
  {
    h with
    chars := Function.update h.chars a fun i =>
      if 0 ≤ i then bytes.getD i.toNat (h.chars a i) else h.chars a i
  }

def setPostData (h : Heap) (a : Addr) (pd : PostData) : Heap :=
  { h with postData := Function.update h.postData a pd }

def setBoundary (h : Heap) (a : Addr) (b : Boundary) : Heap :=
  { h with boundary := Function.update h.boundary a b }

def setCoroutine (h : Heap) (r : CrRef) (c : Coroutine) : Heap :=
  { h with coroutine := Function.update h.coroutine r c }

def setContext (h : Heap) (r : CrRef) (c : Context) : Heap :=
  h.setCoroutine r { h.coroutine r with currContext := c }

--------------------------------------------------
-- `coroutines.c`
--------------------------------------------------

/-- `cr_init`. -/
def crInit (p : Program) (h : Heap) (r : CrRef) : Heap :=
  h.setContext r { sp := p.stackUse .empty, stack := none, stackSize := 0, status := .ready }

/-- Backing the coroutine that uses the shared stack up in a block of its own; `none` when
that block cannot be allocated.
-/
def crEvict (h : Heap) : Bool × Heap :=
  match h.crInStack with
  | none => (true, h)
  | some r =>
      let context := (h.coroutine r).currContext
      match h.memAlloc context.sp with
      | (none, h) => (false, h.setContext r { context with stack := none })
      | (some a, h) =>
          let h := { h with savedStack := Function.update h.savedStack a h.sharedStack }
          (true, h.setContext r { context with stack := some a, stackSize := context.sp % 0x4000 })

/-- Moving the saved stack of a coroutine to the shared stack. -/
def crInstall (h : Heap) (r : CrRef) : Heap :=
  let context := (h.coroutine r).currContext
  match context.stack with
  | none => { h with crInStack := some r }
  | some a =>
      let h := { h with sharedStack := h.savedStack a, crInStack := some r }
      (h.memFree (some a) context.stackSize).setContext r { context with stack := none }

/-- `cr_prepare`, with whether it succeeded. -/
def crPrepare (h : Heap) (r : CrRef) : Bool × Heap :=
  if h.crInStack = some r then
    (true, h)
  else
    match h.crEvict with
    | (false, h) => (false, h)
    | (true, h) => (true, h.crInstall r)

/-- `cr_clean`. -/
def crClean (h : Heap) (r : CrRef) : Heap :=
  let context := (h.coroutine r).currContext
  let h := if h.crInStack = some r then { h with crInStack := none } else h
  h.memFree context.stack context.stackSize

/-- A coroutine left the processor in `cr_run`: its stack pointer is saved. -/
def crSuspend (p : Program) (h : Heap) (r : CrRef) (frame : Frame) : Heap :=
  let context := (h.coroutine r).currContext
  { h with sharedStack := frame }.setContext r
    { context with sp := p.stackUse frame, status := .active }

/-- The function of a coroutine returned. -/
def crTerminate (h : Heap) (r : CrRef) : Heap :=
  h.setContext r { (h.coroutine r).currContext with status := .terminated }

end Heap

end Smews.Core
