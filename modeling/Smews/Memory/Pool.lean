import Smews.Library.Extents
import Mathlib.Data.List.Basic

/-! The allocator of `memory.c`: a pool of 32-bit words with an address-sorted list of free
blocks threaded through it by relative offsets.
-/

namespace Smews.Memory

/-- `alloc_buffer` byte by byte, and `first_free`. Addresses of blocks are indices of
32-bit words; word `w` holds the bytes from `4 * w` on. The buffer has `words + 1` words.
-/
structure Pool where
  words : Nat
  bytes : Nat → UInt8
  firstFree : Nat

namespace Pool

/-- The 16-bit value stored little-endian at byte `i`. -/
def half (p : Pool) (i : Nat) : Nat := (p.bytes i).toNat + 256 * (p.bytes (i + 1)).toNat

/-- Store a 16-bit value little-endian at byte `i`. -/
def setHalf (p : Pool) (i v : Nat) : Pool :=
  {
    p with
    bytes := fun j =>
      if j = i then UInt8.ofNat v
      else if j = i + 1 then UInt8.ofNat (v / 256)
      else p.bytes j
  }

/-- `((struct free_bloc_s *) w)->size`, in words. -/
def size (p : Pool) (w : Nat) : Nat := p.half (4 * w)

/-- `((struct free_bloc_s *) w)->to_next`, in words. -/
def toNext (p : Pool) (w : Nat) : Nat := p.half (4 * w + 2)

def setSize (p : Pool) (w v : Nat) : Pool := p.setHalf (4 * w) v

def setToNext (p : Pool) (w v : Nat) : Pool := p.setHalf (4 * w + 2) v

/-- A store of one byte by the owner of a block. -/
def store (p : Pool) (i : Nat) (v : UInt8) : Pool :=
  { p with bytes := fun j => if j = i then v else p.bytes j }

/-- `mem_reset`: one free block over the whole buffer. -/
def memReset (p : Pool) : Pool := { (p.setSize 0 p.words).setToNext 0 p.words with firstFree := 0 }

/-- The pool at start-up: a zero-initialised static buffer of `ALLOC_SIZE / 4 + 1` words
after `mem_reset`.
-/
def init (words : Nat) : Pool :=
  memReset { words, bytes := fun _ => 0, firstFree := 0 }

/-- The sum in the loop of `get_free_mem`, which stops where `to_next` is zero. -/
def sumFree (p : Pool) : Nat → Nat → Nat
  | 0, _ => 0
  | fuel + 1, curr =>
      if p.toNext curr = 0 then 0 else p.size curr + p.sumFree fuel (curr + p.toNext curr)

/-- `get_free_mem`. -/
def getFreeMem (p : Pool) : Nat := p.sumFree (p.words + 1) p.firstFree * 4

/-- The search loop of `mem_alloc` and of `mem_free`: `prev_free` and `curr_free` when
`skip` first fails. Each turn moves to a higher address, so `fuel` is never used up on a
well-formed list.
-/
def search (p : Pool) (skip : Nat → Bool) : Nat → Option Nat → Nat → Option Nat × Nat
  | 0, prev, curr => (prev, curr)
  | fuel + 1, prev, curr =>
      if skip curr then p.search skip fuel (some curr) (curr + p.toNext curr)
      else (prev, curr)

/-- The rounding of a size in bytes to words, in 16 bits:
`if(size % 4 > 0) size += 4; size >>= 2;`.
-/
def toWords (size : UInt16) : Nat :=
  ((if size % 4 > 0 then size + 4 else size) >>> 2).toNat

/-- `prev_free->to_next += n`, or the new value of `first_free` where there is no
previous block.
-/
def advance (p : Pool) (prev : Option Nat) (n first : Nat) : Pool :=
  match prev with
  | none => { p with firstFree := first }
  | some b => p.setToNext b (p.toNext b + n)

/-- `mem_alloc`: the address of the block, `none` for `NULL`. -/
def memAlloc (p : Pool) (bytes : UInt16) : Option Nat × Pool :=
  let size := toWords bytes
  let found := p.search (fun curr => p.size curr != 0 && p.size curr < size) (p.words + 1)
    none p.firstFree
  let prev := found.1
  let curr := found.2
  if p.size curr = size then
    -- the whole block is used
    (some curr, p.advance prev (p.toNext curr) (curr + p.toNext curr))
  else if p.size curr ≥ size then
    let newFree := curr + size
    let q := p.advance prev size newFree
    let q := q.setSize newFree (q.size curr - size)
    (some curr, q.setToNext newFree (q.toNext curr - size))
  else (none, p)

/-- `chain_free_blocs`: link `b1` to `b2`, merging them where `b2` starts at the end of
`b1`.
-/
def chainFreeBlocs (p : Pool) (b1 b2 : Nat) : Pool :=
  if b1 + p.size b1 = b2 then
    let q := p.setToNext b1 (p.toNext b2 + p.size b1)
    q.setSize b1 (q.size b1 + q.size b2)
  else p.setToNext b1 (b2 - b1)

/-- `mem_free`. A `NULL` pointer or a size of zero does nothing. -/
def memFree (p : Pool) (ptr : Option Nat) (bytes : UInt16) : Pool :=
  match ptr with
  | none => p
  | some toFree =>
      if bytes = 0 then p
      else
        let found := p.search (fun curr => curr < toFree) (p.words + 1) none p.firstFree
        let prev := found.1
        let curr := found.2
        let q := (p.setSize toFree (toWords bytes)).setToNext toFree (curr - toFree)
        -- is there a block after `ptr`?
        let q := if q.size curr ≠ 0 then q.chainFreeBlocs toFree curr else q
        -- is there a block before `ptr`?
        match prev with
        | some b => q.chainFreeBlocs b toFree
        | none => { q with firstFree := toFree }

/-- The copy loop of `mem_realloc`, from byte `i` on. -/
def copy (p : Pool) (dst src : Nat) : Nat → Pool
  | 0 => p
  | n + 1 => (p.copy dst src n).store (4 * dst + n) ((p.copy dst src n).bytes (4 * src + n))

/-- `mem_realloc`. The new size is computed in 16 bits. -/
def memRealloc (p : Pool) (ptr : Nat) (size sizeToAdd : UInt16) : Option Nat × Pool :=
  match p.memAlloc (size + sizeToAdd) with
  | (none, q) => (none, q.memFree (some ptr) size)
  | (some new, q) => (some new, (q.copy new ptr size.toNat).memFree (some ptr) size)

end Pool

end Smews.Memory
