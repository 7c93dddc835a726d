import Smews.Memory.Pool

/-! The free list threaded through the pool is a separated list of extents, and the
allocator's operations are taking from it and releasing into it.
-/

namespace Smews.Memory

open Extents

namespace Pool

variable {p : Pool}

-----------------------------------------------------------------------------------------
-- Reading fields over stores
-----------------------------------------------------------------------------------------

theorem half_setHalf_self {i v : Nat} (small : v < 65536) : (p.setHalf i v).half i = v := by
  simp only [half, setHalf, if_true, Nat.add_one_ne_self, if_false, UInt8.toNat_ofNat']
  omega

theorem half_setHalf_other {i j v : Nat} (apart : i + 2 ≤ j ∨ j + 2 ≤ i)
    : (p.setHalf i v).half j = p.half j := by
  have h₁ : j ≠ i := by omega
  have h₂ : j ≠ i + 1 := by omega
  have h₃ : j + 1 ≠ i := by omega
  simp only [half, setHalf, h₁, h₂, h₃, Nat.add_right_cancel_iff, if_false]

@[simp] theorem size_setSize_self {w v : Nat} (small : v < 65536)
    : (p.setSize w v).size w = v :=
  half_setHalf_self small

@[simp] theorem size_setSize_other {w w' v : Nat} (ne : w' ≠ w)
    : (p.setSize w v).size w' = p.size w' :=
  half_setHalf_other (by omega)

@[simp] theorem toNext_setSize (w w' v : Nat) : (p.setSize w v).toNext w' = p.toNext w' :=
  half_setHalf_other (by omega)

@[simp] theorem toNext_setToNext_self {w v : Nat} (small : v < 65536)
    : (p.setToNext w v).toNext w = v :=
  half_setHalf_self small

@[simp] theorem toNext_setToNext_other {w w' v : Nat} (ne : w' ≠ w)
    : (p.setToNext w v).toNext w' = p.toNext w' :=
  half_setHalf_other (by omega)

@[simp] theorem size_setToNext (w w' v : Nat) : (p.setToNext w v).size w' = p.size w' :=
  half_setHalf_other (by omega)

@[simp] theorem words_setSize (w v : Nat) : (p.setSize w v).words = p.words := rfl

@[simp] theorem words_setToNext (w v : Nat) : (p.setToNext w v).words = p.words := rfl

@[simp] theorem firstFree_setSize (w v : Nat) : (p.setSize w v).firstFree = p.firstFree := rfl

@[simp] theorem firstFree_setToNext (w v : Nat)
    : (p.setToNext w v).firstFree = p.firstFree := rfl

/-- `q` differs from `p` at most in the header of word `b` and in `first_free`. -/
structure OnlyAt (p q : Pool) (b : Nat) : Prop where
  words : q.words = p.words
  size : ∀ w, w ≠ b → q.size w = p.size w
  toNext : ∀ w, w ≠ b → q.toNext w = p.toNext w

theorem OnlyAt.trans {q r : Pool} {b : Nat} (h : OnlyAt p q b) (h' : OnlyAt q r b)
    : OnlyAt p r b :=
  ⟨h'.words.trans h.words, fun w ne => (h'.size w ne).trans (h.size w ne),
    fun w ne => (h'.toNext w ne).trans (h.toNext w ne)⟩

theorem onlyAt_setSize (b v : Nat) : OnlyAt p (p.setSize b v) b :=
  ⟨rfl, fun _ ne => size_setSize_other ne, fun _ _ => toNext_setSize ..⟩

theorem onlyAt_setToNext (b v : Nat) : OnlyAt p (p.setToNext b v) b :=
  ⟨rfl, fun _ _ => size_setToNext .., fun _ ne => toNext_setToNext_other ne⟩

theorem onlyAt_chainFreeBlocs (b b2 : Nat) : OnlyAt p (p.chainFreeBlocs b b2) b := by
  unfold chainFreeBlocs
  split
  · exact (onlyAt_setToNext ..).trans (onlyAt_setSize ..)
  · exact onlyAt_setToNext ..

@[simp] theorem firstFree_chainFreeBlocs (b b2 : Nat)
    : (p.chainFreeBlocs b b2).firstFree = p.firstFree := by
  unfold chainFreeBlocs
  split <;> rfl

-----------------------------------------------------------------------------------------
-- List segments
-----------------------------------------------------------------------------------------

/-- From word `a` the `to_next` links lead through the blocks of the list to word `b`, and
each block's header holds its size.
-/
def Links (p : Pool) : Nat → List Extent → Nat → Prop
  | a, [], b => a = b
  | a, e :: rest, b => a = e.addr ∧ p.size a = e.size ∧ Links p (a + p.toNext a) rest b

/-- The links read only the headers of the blocks. -/
theorem Links.congr {q : Pool} {a b : Nat} {l : List Extent} (h : p.Links a l b)
    (size : ∀ e ∈ l, q.size e.addr = p.size e.addr)
    (toNext : ∀ e ∈ l, q.toNext e.addr = p.toNext e.addr)
    : q.Links a l b := by
  induction l generalizing a with
  | nil => exact h
  | cons e rest ih =>
      obtain ⟨rfl, sizeE, tail⟩ := h
      refine ⟨rfl, (size e (by simp)).trans sizeE, ?_⟩
      rw [toNext e (by simp)]
      exact ih tail (fun f member => size f (by simp [member]))
        (fun f member => toNext f (by simp [member]))

/-- A change of one header leaves the links through other blocks alone. -/
theorem Links.onlyAt {q : Pool} {a b w : Nat} {l : List Extent} (h : p.Links a l b)
    (only : OnlyAt p q w) (absent : ∀ e ∈ l, e.addr ≠ w)
    : q.Links a l b :=
  h.congr (fun e member => only.size _ (absent e member))
    (fun e member => only.toNext _ (absent e member))

/-- The links do not depend on `first_free`. -/
theorem Links.withFirst {a b first : Nat} {l : List Extent} (h : p.Links a l b)
    : ({ p with firstFree := first } : Pool).Links a l b :=
  h.congr (fun _ _ => rfl) (fun _ _ => rfl)

theorem links_append {a c : Nat} {l m : List Extent}
    : p.Links a (l ++ m) c ↔ ∃ b, p.Links a l b ∧ p.Links b m c := by
  induction l generalizing a with
  | nil => simp [Links]
  | cons e rest ih => simp [Links, ih, and_assoc]

theorem Links.size_of_mem {a b : Nat} {l : List Extent} (h : p.Links a l b)
    {e : Extent} (member : e ∈ l)
    : p.size e.addr = e.size := by
  induction l generalizing a with
  | nil => cases member
  | cons f rest ih =>
      obtain ⟨rfl, size, tail⟩ := h
      rcases List.mem_cons.mp member with same | below
      · exact same ▸ size
      · exact ih tail below

/-- A segment starts at its first block, or at its end where it has none. -/
theorem Links.start {a b : Nat} {l : List Extent} (h : p.Links a l b)
    : a = (l.head?.map Extent.addr).getD b := by
  cases l with
  | nil => exact h
  | cons e rest => exact h.1

/-- The pool's free list is `l`: linked from `first_free` to a zero sentinel behind the last
word, in strictly increasing order, with no two blocks touching.
-/
structure FreeList (p : Pool) (l : List Extent) : Prop where
  fits : p.words < 65536
  links : p.Links p.firstFree l p.words
  sentinelSize : p.size p.words = 0
  sentinelNext : p.toNext p.words = 0
  separated : Separated 0 p.words l

theorem FreeList.addr_lt {l : List Extent} (h : p.FreeList l) {e : Extent} (member : e ∈ l)
    : e.addr < p.words := by
  have bounds := h.separated.mem_bounds member
  simp only [Extent.stop] at bounds
  omega

/-- Distinct blocks of a separated list have distinct addresses. -/
theorem addr_ne_of_append {lo hi : Nat} {before rest : List Extent}
    (sep : Separated lo hi (before ++ rest))
    : ∀ e ∈ before, ∀ f ∈ rest, f.addr ≠ e.addr := by
  intro e inBefore f inRest
  have bounds := (sep.append.2 e inBefore).mem_bounds inRest
  simp only [Extent.stop] at bounds
  omega

-----------------------------------------------------------------------------------------
-- The search loop
-----------------------------------------------------------------------------------------

/-- The search splits the list at the first block it does not skip and remembers the block
before it. By induction on the list; the fuel covers one turn for every block.
-/
theorem search_spec {skip : Nat → Bool} {a stop fuel : Nat} {l : List Extent}
    (prev : Option Nat) (links : p.Links a l stop) (halts : skip stop = false)
    (enough : l.length < fuel)
    : ∃ before rest, l = before ++ rest
        ∧ p.search skip fuel prev a
          = ((before.getLast?.map Extent.addr).or prev,
              (rest.head?.map Extent.addr).getD stop)
        ∧ (∀ e ∈ before, skip e.addr = true)
        ∧ ∀ e ∈ rest.head?, skip e.addr = false := by
  induction l generalizing a fuel prev with
  | nil =>
      obtain ⟨fuel, rfl⟩ := Nat.exists_eq_succ_of_ne_zero (n := fuel) (by omega)
      have same : a = stop := links
      exact ⟨[], [], rfl, by simp [search, same, halts], by simp, by simp⟩
  | cons e rest ih =>
      obtain ⟨fuel, rfl⟩ := Nat.exists_eq_succ_of_ne_zero (n := fuel) (by omega)
      obtain ⟨rfl, size, tail⟩ := links
      cases skipped : skip e.addr with
      | false =>
          exact ⟨[], e :: rest, rfl, by simp [search, skipped], by simp, by simp [skipped]⟩
      | true =>
          have shorter : rest.length < fuel := by simpa using enough
          obtain ⟨before, after, split, found, skips, stops⟩ := ih (some e.addr) tail shorter
          refine ⟨e :: before, after, by simp [split], ?_, ?_, stops⟩
          · simp only [search, skipped, if_true, found, Prod.mk.injEq, and_true]
            cases before <;> simp [List.getLast?_cons]
          · intro f member
            rcases List.mem_cons.mp member with same | below
            · exact same ▸ skipped
            · exact skips f below

/-- The search on the whole list with the fuel the operations give it. -/
theorem FreeList.search {l : List Extent} (h : p.FreeList l) (skip : Nat → Bool)
    (halts : skip p.words = false)
    : ∃ before rest, l = before ++ rest
        ∧ p.search skip (p.words + 1) none p.firstFree
          = (before.getLast?.map Extent.addr, (rest.head?.map Extent.addr).getD p.words)
        ∧ (∀ e ∈ before, skip e.addr = true)
        ∧ ∀ e ∈ rest.head?, skip e.addr = false := by
  have short := h.separated.length_le
  simpa using search_spec none h.links halts (by omega : l.length < p.words + 1)

-----------------------------------------------------------------------------------------
-- mem_alloc
-----------------------------------------------------------------------------------------

theorem toWords_of_le {bytes : UInt16} (small : bytes ≤ 65532)
    : toWords bytes = (bytes.toNat + 3) / 4 := by
  have bound : bytes.toNat ≤ 65532 := by simpa [UInt16.le_iff_toNat_le] using small
  have mod : (bytes % 4 > 0) ↔ bytes.toNat % 4 > 0 := by
    simp [UInt16.lt_iff_toNat_lt, UInt16.toNat_mod]
  unfold toWords
  by_cases partial_ : bytes % 4 > 0
  · have rest := mod.mp partial_
    simp only [partial_, if_true, UInt16.toNat_shiftRight, UInt16.toNat_add]
    simp [Nat.shiftRight_eq_div_pow]
    omega
  · have rest := mt mod.mpr partial_
    simp only [partial_, if_false, UInt16.toNat_shiftRight]
    simp [Nat.shiftRight_eq_div_pow]
    omega

theorem toWords_pos {bytes : UInt16} (positive : 0 < bytes) (small : bytes ≤ 65532)
    : 0 < toWords bytes := by
  have : 0 < bytes.toNat := by simpa [UInt16.lt_iff_toNat_lt] using positive
  rw [toWords_of_le small]
  omega

theorem size_advance (prev : Option Nat) (n first w : Nat)
    : (p.advance prev n first).size w = p.size w := by
  cases prev <;> simp [advance, size, half]
  exact size_setToNext ..

theorem words_advance (prev : Option Nat) (n first : Nat)
    : (p.advance prev n first).words = p.words := by
  cases prev <;> rfl

theorem toNext_advance {prev : Option Nat} {n first w : Nat} (other : prev ≠ some w)
    : (p.advance prev n first).toNext w = p.toNext w := by
  cases prev with
  | none => rfl
  | some b => exact toNext_setToNext_other (by simpa [eq_comm] using other)

/-- Moving the last link of a segment, or `first_free` before an empty segment, moves the
segment's end.
-/
theorem Links.advance {lo hi c n : Nat} {before : List Extent}
    (links : p.Links p.firstFree before c) (sep : Separated lo hi before)
    (fits : c + n < 65536)
    : (p.advance (before.getLast?.map Extent.addr) n (c + n)).Links
        (p.advance (before.getLast?.map Extent.addr) n (c + n)).firstFree before (c + n) := by
  rcases List.eq_nil_or_concat before with rfl | ⟨init, z, rfl⟩
  · exact rfl
  · simp only [List.concat_eq_append] at links sep ⊢
    obtain ⟨b, first, last⟩ := links_append.mp links
    obtain ⟨rfl, size, same⟩ := last
    have end_ : z.addr + p.toNext z.addr = c := same
    have distinct := addr_ne_of_append sep
    simp only [List.getLast?_append, List.getLast?_singleton, Option.some_or, Option.map_some,
      Pool.advance]
    refine links_append.mpr ⟨z.addr, ?_, rfl, ?_, ?_⟩
    · exact first.onlyAt (onlyAt_setToNext ..)
        (fun e member => (distinct e member z (by simp)).symm)
    · simpa using size
    · rw [toNext_setToNext_self (by omega)]
      show z.addr + (p.toNext z.addr + n) = c + n
      omega

/-- The header of the block that follows `before` on the free list: its size, and a link
past its end but not past the sentinel.
-/
theorem FreeList.header {before rest : List Extent} {e : Extent}
    (h : p.FreeList (before ++ e :: rest))
    : p.Links p.firstFree before e.addr
      ∧ p.size e.addr = e.size
      ∧ p.Links (e.addr + p.toNext e.addr) rest p.words
      ∧ e.stop ≤ e.addr + p.toNext e.addr
      ∧ e.addr + p.toNext e.addr ≤ p.words := by
  obtain ⟨c, front, rfl, size, tail⟩ := links_append.mp h.links
  obtain ⟨_, _, sepTail⟩ := h.separated.append.1
  refine ⟨front, size, tail, ?_⟩
  rw [tail.start]
  cases rest with
  | nil =>
      have := sepTail.lo_le
      simp only [List.head?_nil, Option.map_none, Option.getD_none]
      omega
  | cons f more =>
      have gap := sepTail.1
      have bound := (sepTail.mem_bounds (e := f) (by simp)).2.2
      simp only [List.head?_cons, Option.map_some, Option.getD_some, Extent.stop] at *
      omega

/-- The block before `e` on the free list is none of the blocks from `e` on, and not the
sentinel.
-/
theorem FreeList.last_ne {before rest : List Extent} (h : p.FreeList (before ++ rest))
    : (∀ f ∈ rest, before.getLast?.map Extent.addr ≠ some f.addr)
      ∧ before.getLast?.map Extent.addr ≠ some p.words := by
  constructor
  · intro f member same
    obtain ⟨z, last, addr⟩ := Option.map_eq_some_iff.mp same
    exact addr_ne_of_append h.separated z (List.mem_of_getLast? last) f member addr.symm
  · intro same
    obtain ⟨z, last, addr⟩ := Option.map_eq_some_iff.mp same
    have := h.addr_lt (e := z) (List.mem_append_left _ (List.mem_of_getLast? last))
    omega

/-- Unlinking a block: the link before it is moved past it. -/
theorem FreeList.takeWhole {before rest : List Extent} {e : Extent}
    (h : p.FreeList (before ++ e :: rest)) (sep : Separated 0 p.words (before ++ rest))
    : (p.advance (before.getLast?.map Extent.addr) (p.toNext e.addr)
        (e.addr + p.toNext e.addr)).FreeList (before ++ rest) := by
  obtain ⟨front, _, tail, _, bound⟩ := h.header
  obtain ⟨lastAbsent, lastSentinel⟩ := h.last_ne
  have fits := h.fits
  have moved := front.advance h.separated.front (n := p.toNext e.addr) (by omega)
  have kept := tail.congr (q := p.advance (before.getLast?.map Extent.addr)
      (p.toNext e.addr) (e.addr + p.toNext e.addr))
    (fun f _ => size_advance ..)
    (fun f member => toNext_advance (lastAbsent f (by simp [member])))
  exact {
    fits := by simpa only [words_advance] using fits
    links := by
      rw [words_advance]
      exact links_append.mpr ⟨_, moved, kept⟩
    sentinelSize := by rw [words_advance, size_advance, h.sentinelSize]
    sentinelNext := by rw [words_advance, toNext_advance lastSentinel, h.sentinelNext]
    separated := by simpa only [words_advance] using sep
  }

/-- Cutting `n` words off the front of a block: the link before it is moved by `n`, and the
remainder gets a header of its own.
-/
theorem FreeList.takeFront {before rest : List Extent} {e : Extent} {n : Nat}
    (h : p.FreeList (before ++ e :: rest)) (positive : 0 < n) (less : n < e.size)
    (sep : Separated 0 p.words (before ++ ⟨e.addr + n, e.size - n⟩ :: rest))
    : (((p.advance (before.getLast?.map Extent.addr) n (e.addr + n)).setSize (e.addr + n)
        (p.size e.addr - n)).setToNext (e.addr + n) (p.toNext e.addr - n)).FreeList
      (before ++ ⟨e.addr + n, e.size - n⟩ :: rest) := by
  obtain ⟨front, size, tail, past, bound⟩ := h.header
  obtain ⟨lastAbsent, lastSentinel⟩ := h.last_ne
  have fits := h.fits
  have inside := (h.separated.mem_bounds (e := e) (by simp)).2.2
  simp only [Extent.stop] at past inside
  set q := p.advance (before.getLast?.map Extent.addr) n (e.addr + n) with q_def
  have moved : q.Links q.firstFree before (e.addr + n) :=
    front.advance h.separated.front (n := n) (by omega)
  have words : q.words = p.words := words_advance ..
  have only : OnlyAt q ((q.setSize (e.addr + n) (p.size e.addr - n)).setToNext (e.addr + n)
      (p.toNext e.addr - n)) (e.addr + n) :=
    (onlyAt_setSize ..).trans (onlyAt_setToNext ..)
  have rest_ne : ∀ f ∈ rest, f.addr ≠ e.addr + n := by
    intro f member
    have gap := (h.separated.append.1.2.2.mem_bounds member).1
    simp only [Extent.stop] at gap
    omega
  have before_ne : ∀ f ∈ before, f.addr ≠ e.addr + n := by
    intro f member
    have gap := (h.separated.append.2 f member).1
    simp only [Extent.stop] at gap
    omega
  have kept : q.Links (e.addr + p.toNext e.addr) rest p.words :=
    tail.congr (fun f _ => size_advance ..)
      (fun f member => toNext_advance (lastAbsent f (by simp [member])))
  have sentinel_ne : p.words ≠ e.addr + n := by omega
  exact {
    fits := by simpa only [words_setToNext, words_setSize, words] using fits
    links := by
      refine links_append.mpr ⟨e.addr + n, moved.onlyAt only before_ne, rfl, ?_, ?_⟩
      · rw [size_setToNext, size_setSize_self (by omega), size]
      · rw [toNext_setToNext_self (by omega)]
        have same : e.addr + n + (p.toNext e.addr - n) = e.addr + p.toNext e.addr := by omega
        rw [same]
        simpa only [words_setToNext, words_setSize, words] using kept.onlyAt only rest_ne
    sentinelSize := by
      rw [only.words, words, only.size _ sentinel_ne, q_def, size_advance, h.sentinelSize]
    sentinelNext := by
      rw [only.words, words, only.toNext _ sentinel_ne, q_def, toNext_advance lastSentinel,
        h.sentinelNext]
    separated := by simpa only [words_setToNext, words_setSize, words] using sep
  }

/-- `mem_alloc` finds the first block that is large enough and cuts the request off its
front.
-/
theorem FreeList.memAlloc {l : List Extent} (h : p.FreeList l) {bytes : UInt16}
    (positive : 0 < bytes) (small : bytes ≤ 65532)
    : match takeFirst (toWords bytes) l with
      | none => p.memAlloc bytes = (none, p)
      | some (a, l') =>
          ∃ q, p.memAlloc bytes = (some a, q) ∧ q.words = p.words ∧ q.FreeList l' := by
  have n_pos := toWords_pos positive small
  set n := toWords bytes with n_def
  obtain ⟨before, rest, rfl, found, skips, stops⟩ :=
    h.search (fun curr => p.size curr != 0 && p.size curr < n)
      (by simp [h.sentinelSize])
  have smaller : ∀ e ∈ before, e.size < n := by
    intro e member
    have size := h.links.size_of_mem (e := e) (by simp [member])
    have skipped := skips e member
    simp only [size, Bool.and_eq_true, bne_iff_ne, decide_eq_true_eq] at skipped
    exact skipped.2
  have split := takeFirst_append rest smaller
  cases rest with
  | nil =>
      simp only [split, takeFirst, Option.map_none]
      simp only [List.head?_nil, Option.map_none, Option.getD_none] at found
      simp only [Pool.memAlloc, ← n_def, found, h.sentinelSize]
      rw [if_neg (by omega), if_neg (by omega)]
  | cons e rest =>
      simp only [List.head?_cons, Option.map_some, Option.getD_some] at found
      have size := h.header.2.1
      have nonempty := (h.separated.mem_bounds (e := e) (by simp)).2.1
      have large : ¬ e.size < n := by
        have stopped := stops e (by simp)
        simp only [size, Bool.and_eq_false_iff, bne_eq_false_iff_eq, decide_eq_false_iff_not]
          at stopped
        omega
      by_cases whole : e.size = n
      · simp only [takeFirst, whole, Nat.lt_irrefl, if_false, if_true, Option.map_some] at split
        have sep := (takeFirst_spec n_pos h.separated split).1
        rw [split]
        refine ⟨_, ?_, words_advance .., h.takeWhole sep⟩
        simp only [Pool.memAlloc, ← n_def, found, size, whole, if_true]
      · simp only [takeFirst, large, whole, if_false, Option.map_some] at split
        have sep := (takeFirst_spec n_pos h.separated split).1
        rw [split]
        refine ⟨_, ?_, ?_, h.takeFront n_pos (by omega) sep⟩
        · have current : ∀ w, before.getLast?.map Extent.addr ≠ some w → w ≠ e.addr + n →
              ((p.advance (before.getLast?.map Extent.addr) n (e.addr + n)).setSize
                (e.addr + n) (e.size - n)).toNext w = p.toNext w := by
            intro w last ne
            rw [toNext_setSize, toNext_advance last]
          simp only [Pool.memAlloc, ← n_def, found, size, whole, if_false, size_advance]
          rw [if_pos (by omega), current _ (h.last_ne.1 e (by simp)) (by omega)]
        · rw [words_setToNext, words_setSize, words_advance]

-----------------------------------------------------------------------------------------
-- mem_free
-----------------------------------------------------------------------------------------

/-- `chain_free_blocs` prepends a block to a segment, merging the two where they touch. -/
theorem Links.chainFreeBlocs {e f : Extent} {rest : List Extent}
    (links : p.Links f.addr (f :: rest) p.words) (size : p.size e.addr = e.size)
    (fits : p.words < 65536) (nonempty : 0 < e.size) (le : e.stop ≤ f.addr)
    (sep : Separated 0 p.words (f :: rest))
    : (p.chainFreeBlocs e.addr f.addr).Links e.addr (join e (f :: rest)) p.words := by
  obtain ⟨_, sizeF, tail⟩ := links
  have bounds := (sep.mem_bounds (e := f) (by simp)).2.2
  have absent : ∀ g ∈ f :: rest, g.addr ≠ e.addr := by
    intro g member
    rcases List.mem_cons.mp member with same | below
    · subst same
      simp only [Extent.stop] at le
      omega
    · have gap := (sep.2.2.mem_bounds below).1
      simp only [Extent.stop] at gap le
      omega
  have kept : ∀ {a : Nat} {m : List Extent}, m ⊆ f :: rest → p.Links a m p.words →
      (p.chainFreeBlocs e.addr f.addr).Links a m p.words :=
    fun sub h => h.onlyAt (onlyAt_chainFreeBlocs ..) (fun g member => absent g (sub member))
  have past : f.addr + p.toNext f.addr ≤ p.words := by
    rw [tail.start]
    cases rest with
    | nil => simp
    | cons g more =>
        have := (sep.mem_bounds (e := g) (by simp)).2.2
        simp only [Extent.stop] at this
        simp only [List.head?_cons, Option.map_some, Option.getD_some]
        omega
  have apart := absent f (by simp)
  simp only [Extent.stop] at le bounds
  by_cases touch : e.addr + e.size = f.addr
  · have merged : p.chainFreeBlocs e.addr f.addr
        = (p.setToNext e.addr (p.toNext f.addr + e.size)).setSize e.addr
            (e.size + f.size) := by
      simp only [Pool.chainFreeBlocs, size, touch, if_true, size_setToNext, sizeF]
    simp only [join, Extent.stop, touch, if_true]
    refine ⟨rfl, ?_, ?_⟩
    · rw [merged, size_setSize_self (by omega)]
    · have next : (p.chainFreeBlocs e.addr f.addr).toNext e.addr = p.toNext f.addr + e.size := by
        rw [merged, toNext_setSize, toNext_setToNext_self (by omega)]
      rw [next, show e.addr + (p.toNext f.addr + e.size) = f.addr + p.toNext f.addr by omega]
      exact kept (List.subset_cons_self f rest) tail
  · have linked : p.chainFreeBlocs e.addr f.addr = p.setToNext e.addr (f.addr - e.addr) := by
      simp only [Pool.chainFreeBlocs, size, touch, if_false]
    simp only [join, Extent.stop, touch, if_false]
    refine ⟨rfl, ?_, ?_⟩
    · rw [linked, size_setToNext, size]
    · have next : (p.chainFreeBlocs e.addr f.addr).toNext e.addr = f.addr - e.addr := by
        rw [linked, toNext_setToNext_self (by omega)]
      rw [next, show e.addr + (f.addr - e.addr) = f.addr by omega]
      exact kept (List.Subset.refl _) ⟨rfl, sizeF, tail⟩

/-- The block being freed, with its header written and chained to the blocks after it. -/
def chained (p : Pool) (a n curr : Nat) : Pool :=
  let q := (p.setSize a n).setToNext a (curr - a)
  if q.size curr ≠ 0 then q.chainFreeBlocs a curr else q

theorem onlyAt_chained (a n curr : Nat) : OnlyAt p (p.chained a n curr) a := by
  have header : OnlyAt p ((p.setSize a n).setToNext a (curr - a)) a :=
    (onlyAt_setSize ..).trans (onlyAt_setToNext ..)
  simp only [chained]
  split
  · exact header.trans (onlyAt_chainFreeBlocs ..)
  · exact header

@[simp] theorem firstFree_chained (a n curr : Nat)
    : (p.chained a n curr).firstFree = p.firstFree := by
  simp only [chained]
  split <;> simp

/-- The first half of `mem_free`: the freed block heads the segment of the blocks after it. -/
theorem FreeList.chained {before rest : List Extent} {e : Extent}
    (h : p.FreeList (before ++ rest)) (nonempty : 0 < e.size) (bound : e.stop ≤ p.words)
    (above : ∀ f ∈ rest, e.stop ≤ f.addr)
    : (p.chained e.addr e.size ((rest.head?.map Extent.addr).getD p.words)).Links e.addr
        (join e rest) p.words := by
  have fits := h.fits
  simp only [Extent.stop] at bound
  set curr := (rest.head?.map Extent.addr).getD p.words with curr_def
  set q := (p.setSize e.addr e.size).setToNext e.addr (curr - e.addr) with q_def
  have only : OnlyAt p q e.addr := (onlyAt_setSize ..).trans (onlyAt_setToNext ..)
  have size : q.size e.addr = e.size := by
    rw [q_def, size_setToNext, size_setSize_self (by omega)]
  cases rest with
  | nil =>
      simp only [List.head?_nil, Option.map_none, Option.getD_none] at curr_def
      have none_after : ¬ q.size curr ≠ 0 := by
        rw [curr_def, only.size _ (by omega), h.sentinelSize]
        simp
      have same : p.chained e.addr e.size curr = q := if_neg none_after
      rw [same]
      refine ⟨rfl, size, ?_⟩
      rw [q_def, toNext_setToNext_self (by omega), curr_def]
      show e.addr + (p.words - e.addr) = p.words
      omega
  | cons f rest =>
      simp only [List.head?_cons, Option.map_some, Option.getD_some] at curr_def
      obtain ⟨c, _, back⟩ := links_append.mp h.links
      have start : c = f.addr := back.1
      subst start
      have sep := h.separated.append.1
      have positive := (sep.mem_bounds (e := f) (by simp)).2.1
      have absent : ∀ g ∈ f :: rest, g.addr ≠ e.addr := by
        intro g member
        have := above g member
        simp only [Extent.stop] at this
        omega
      have linked : q.Links f.addr (f :: rest) p.words := back.onlyAt only absent
      have after : q.size curr ≠ 0 := by
        rw [curr_def, only.size _ (absent f (by simp)), back.2.1]
        omega
      have same : p.chained e.addr e.size curr = q.chainFreeBlocs e.addr f.addr := by
        rw [← curr_def]
        exact if_pos after
      rw [same]
      exact linked.chainFreeBlocs size fits nonempty (above f (by simp)) sep

/-- `mem_free` puts the block back at its place and merges it with the free blocks on both
sides.
-/
theorem FreeList.memFree {l : List Extent} (h : p.FreeList l) {a : Nat} {bytes : UInt16}
    (positive : 0 < bytes) (small : bytes ≤ 65532)
    (bound : a + toWords bytes ≤ p.words)
    (apart : ∀ f ∈ l, (⟨a, toWords bytes⟩ : Extent).Apart f)
    : (p.memFree (some a) bytes).words = p.words
      ∧ (p.memFree (some a) bytes).FreeList (release ⟨a, toWords bytes⟩ l) := by
  have n_pos := toWords_pos positive small
  have nonzero : bytes ≠ 0 := by
    rintro rfl
    exact absurd positive (by decide)
  set n := toWords bytes with n_def
  obtain ⟨before, rest, rfl, found, skips, stops⟩ :=
    h.search (fun curr => curr < a) (by simp; omega)
  set e : Extent := ⟨a, n⟩ with e_def
  have below : ∀ f ∈ before, f.addr < a := fun f member => by simpa using skips f member
  have aboveHead : ∀ f ∈ rest.head?, ¬ f.addr < e.addr := fun f member => by
    simpa using stops f member
  have above : ∀ f ∈ rest, e.stop ≤ f.addr := by
    intro f member
    cases rest with
    | nil => cases member
    | cons g rest =>
        have head := aboveHead g (by simp)
        have apartG := apart g (by simp)
        have nonempty := (h.separated.mem_bounds (e := g) (by simp)).2.1
        have ordered : g.addr ≤ f.addr := by
          rcases List.mem_cons.mp member with same | tail
          · exact same ▸ Nat.le_refl _
          · have gap := (h.separated.append.1.2.2.mem_bounds tail).1
            simp only [Extent.stop] at gap
            omega
        simp only [Extent.Apart, Extent.stop, e_def] at apartG head ⊢
        omega
  have suffixLinks := h.chained (e := e) n_pos bound above
  set curr := (rest.head?.map Extent.addr).getD p.words with curr_def
  set q := p.chained a n curr with q_def
  have only : OnlyAt p q a := onlyAt_chained ..
  have sentinel_ne : p.words ≠ a := by omega
  have sepRest : Separated 0 p.words (join e rest) :=
    join_separated (Nat.zero_le _) n_pos
      (by
        cases rest with
        | nil => simp only [Separated, e_def, Extent.stop]; omega
        | cons f rest =>
            obtain ⟨_, nonempty, tail⟩ := h.separated.append.1
            exact ⟨above f (by simp), nonempty, tail⟩)
      bound
  have sep := release_separated (e := e) h.separated (Nat.zero_le _) n_pos bound apart
  rcases List.eq_nil_or_concat before with rfl | ⟨init, z, rfl⟩
  · have freed : p.memFree (some a) bytes = { q with firstFree := a } := by
      simp only [Pool.memFree, nonzero, if_false, found, ← n_def]
      rfl
    rw [freed]
    refine ⟨only.words, ?_⟩
    rw [List.nil_append, release_of_le aboveHead] at sep ⊢
    have links : q.Links a (join e rest) q.words := by
      rw [only.words]
      exact suffixLinks
    have size : q.size q.words = 0 := by
      rw [only.words, only.size _ sentinel_ne, h.sentinelSize]
    have next : q.toNext q.words = 0 := by
      rw [only.words, only.toNext _ sentinel_ne, h.sentinelNext]
    have sepQ : Separated 0 q.words (join e rest) := by
      rw [only.words]
      exact sep
    have fits : q.words < 65536 := by
      rw [only.words]
      exact h.fits
    exact ⟨fits, links.withFirst, size, next, sepQ⟩
  · simp only [List.concat_eq_append, List.append_assoc, List.singleton_append] at *
    have zBelow := below z (by simp)
    have zMember : z ∈ init ++ z :: rest := by simp
    obtain ⟨_, zNonempty, _⟩ := h.separated.mem_bounds zMember
    have zStop : z.stop ≤ a := by
      have apartZ := apart z zMember
      simp only [Extent.Apart, Extent.stop, e_def] at apartZ ⊢
      omega
    obtain ⟨front, zSize, _⟩ := h.header
    have freed : p.memFree (some a) bytes = q.chainFreeBlocs z.addr a := by
      simp only [Pool.memFree, nonzero, if_false, found, ← n_def, List.getLast?_append,
        List.getLast?_singleton, Option.some_or, Option.map_some]
      rfl
    have onlyZ : OnlyAt q (q.chainFreeBlocs z.addr a) z.addr := onlyAt_chainFreeBlocs ..
    have words : (q.chainFreeBlocs z.addr a).words = p.words := onlyZ.words.trans only.words
    obtain ⟨joined, tail, joined_eq⟩ := join_cons e rest
    have back : (q.chainFreeBlocs z.addr a).Links z.addr (join z (join e rest)) p.words := by
      rw [joined_eq] at suffixLinks sepRest ⊢
      rw [← only.words]
      exact Links.chainFreeBlocs (e := z) (f := ⟨a, joined⟩)
        (by rw [only.words]; exact suffixLinks)
        (by rw [only.size _ (by omega), zSize]) (by rw [only.words]; exact h.fits)
        zNonempty zStop (by rw [only.words]; exact sepRest)
    have zSentinel : p.words ≠ z.addr := by
      have := h.addr_lt zMember
      omega
    rw [freed]
    refine ⟨words, ?_⟩
    have placed := release_append (e := e) h.separated n_pos bound apart
      (fun f member => below f (by simpa using member)) aboveHead
    rw [placed] at sep ⊢
    exact {
      fits := by
        rw [words]
        exact h.fits
      links := by
        rw [words, firstFree_chainFreeBlocs, q_def, firstFree_chained, ← q_def]
        refine links_append.mpr ⟨z.addr, ?_, back⟩
        have initNe : ∀ f ∈ init, f.addr ≠ a := fun f member => by
          have := below f (by simp [member])
          omega
        exact (front.onlyAt only initNe).onlyAt onlyZ
          (fun f member => (addr_ne_of_append h.separated f member z (by simp)).symm)
      sentinelSize := by
        rw [words, onlyZ.size _ zSentinel, only.size _ sentinel_ne, h.sentinelSize]
      sentinelNext := by
        rw [words, onlyZ.toNext _ zSentinel, only.toNext _ sentinel_ne, h.sentinelNext]
      separated := by
        rw [words]
        exact sep
    }

-----------------------------------------------------------------------------------------
-- The other operations
-----------------------------------------------------------------------------------------

/-- A store into a block that is apart from every free block and from the sentinel leaves the
free list alone.
-/
theorem FreeList.store {l : List Extent} (h : p.FreeList l) {i : Nat} {v : UInt8}
    (apart : ∀ f ∈ l, i / 4 ≠ f.addr) (bound : i / 4 < p.words)
    : (p.store i v).FreeList l := by
  have kept : ∀ w, i / 4 ≠ w → (p.store i v).size w = p.size w
      ∧ (p.store i v).toNext w = p.toNext w := by
    intro w ne
    have h₁ : ∀ k < 4, 4 * w + k ≠ i := by omega
    have h₂ := h₁ 0 (by omega)
    have h₃ := h₁ 1 (by omega)
    have h₄ := h₁ 2 (by omega)
    have h₅ := h₁ 3 (by omega)
    simp only [Nat.add_zero] at h₂
    simp [size, toNext, half, Pool.store, h₂, h₃, h₄, h₅, Nat.add_assoc]
  exact {
    fits := h.fits
    links := h.links.congr (fun f member => (kept _ (apart f member)).1)
      (fun f member => (kept _ (apart f member)).2)
    sentinelSize := (kept p.words (by omega)).1.trans h.sentinelSize
    sentinelNext := (kept p.words (by omega)).2.trans h.sentinelNext
    separated := h.separated
  }

/-- The loop of `get_free_mem` adds up the sizes of the blocks, by induction on the list. -/
theorem sumFree_eq {a fuel : Nat} {l : List Extent} (links : p.Links a l p.words)
    (sentinel : p.toNext p.words = 0) (sep : Separated 0 p.words l)
    (enough : l.length < fuel)
    : p.sumFree fuel a = total l := by
  induction l generalizing a fuel with
  | nil =>
      obtain ⟨fuel, rfl⟩ := Nat.exists_eq_succ_of_ne_zero (n := fuel) (by omega)
      have same : a = p.words := links
      simp [sumFree, same, sentinel]
  | cons e rest ih =>
      obtain ⟨fuel, rfl⟩ := Nat.exists_eq_succ_of_ne_zero (n := fuel) (by omega)
      obtain ⟨rfl, size, tail⟩ := links
      obtain ⟨_, nonempty, above⟩ := sep
      have moves : p.toNext e.addr ≠ 0 := by
        intro stuck
        have next := tail.start
        rw [stuck] at next
        have inside := above.lo_le
        simp only [Extent.stop] at inside
        cases rest with
        | nil =>
            simp only [List.head?_nil, Option.map_none, Option.getD_none] at next
            omega
        | cons f more =>
            have gap := above.1
            simp only [List.head?_cons, Option.map_some, Option.getD_some, Extent.stop]
              at next gap
            omega
      have shorter : rest.length < fuel := by simpa using enough
      have rest_eq := ih tail (above.weaken (Nat.zero_le _)) shorter
      simp only [sumFree, moves, if_false, size, rest_eq, total_cons]

/-- `get_free_mem` reports four times the free words. -/
theorem FreeList.getFreeMem {l : List Extent} (h : p.FreeList l)
    : p.getFreeMem = 4 * total l := by
  have short := h.separated.length_le
  rw [Pool.getFreeMem, sumFree_eq h.links h.sentinelNext h.separated (by omega), Nat.mul_comm]

/-- The free list after `mem_reset` on a zeroed buffer: one block over the whole pool. -/
def initial (words : Nat) : List Extent := if words = 0 then [] else [⟨0, words⟩]

theorem freeList_init {words : Nat} (fits : words < 65536)
    : (init words).FreeList (initial words) := by
  by_cases empty : words = 0
  · subst empty
    exact ⟨fits, rfl, rfl, rfl, Nat.zero_le _⟩
  · simp only [initial, empty, if_false]
    have zero : ∀ w, w ≠ 0 → (init words).size w = 0 ∧ (init words).toNext w = 0 := by
      intro w ne
      have size : (init words).size w = 0 :=
        (size_setToNext ..).trans ((size_setSize_other ne).trans rfl)
      have next : (init words).toNext w = 0 :=
        (toNext_setToNext_other ne).trans ((toNext_setSize ..).trans rfl)
      exact ⟨size, next⟩
    have size : (init words).size 0 = words :=
      (size_setToNext ..).trans (size_setSize_self fits)
    have next : (init words).toNext 0 = words := toNext_setToNext_self fits
    exact {
      fits := fits
      links := ⟨rfl, size, show 0 + (init words).toNext 0 = words by rw [next, Nat.zero_add]⟩
      sentinelSize := (zero words empty).1
      sentinelNext := (zero words empty).2
      separated := ⟨Nat.zero_le _, Nat.pos_of_ne_zero empty, by
        simp only [Separated, Extent.stop]
        show 0 + words + 1 ≤ words + 1
        omega⟩
    }

end Pool

end Smews.Memory
