import Smews.Memory.FreeList

/-! How many bytes an allocation takes off the free list. The sizes are rounded and added in 16 bits: at the top of
their range they wrap, and `mem_alloc` hands out fewer words than were asked for.
-/

namespace Smews.Memory

open Extents

namespace Pool

variable {p q : Pool} {l l' : List Extent} {a : Nat} {bytes : UInt16}

/-- From `p` to `q` the `n` bytes from word `a` on went off the free list. -/
def Removes (p q : Pool) (a n : Nat) : Prop :=
  ∃ l l', p.FreeList l ∧ q.FreeList l'
    ∧ ∀ w, a ≤ w → 4 * w < 4 * a + n → Covers l w ∧ ¬ Covers l' w

/-- A result of `mem_alloc` that is not `NULL` is a block with at least as many bytes as asked for. -/
def AllocGives (p : Pool) (size : UInt16) : Prop :=
  ∀ a q, p.memAlloc size = (some a, q) → p.Removes q a size.toNat

/-- A result of `mem_realloc` that is not `NULL` is such a block: its allocation took all the bytes off the free list,
and they are still off it at the end.
-/
def ReallocGives (p : Pool) (ptr : Nat) (size sizeToAdd : UInt16) : Prop :=
  ∀ a q, p.memRealloc ptr size sizeToAdd = (some a, q) →
    (∃ q', p.memAlloc (size + sizeToAdd) = (some a, q') ∧ p.Removes q' a (size.toNat + sizeToAdd.toNat))
      ∧ p.Removes q a (size.toNat + sizeToAdd.toNat)

/-- The block of `size` bytes at word `ptr` lies in the pool and shares no word with the free list. -/
def Held (p : Pool) (l : List Extent) (ptr : Nat) (size : UInt16) : Prop :=
  ∀ w, ptr ≤ w → 4 * w < 4 * ptr + size.toNat → w < p.words ∧ ¬ Covers l w

--------------------------------------------------
-- The free list of a pool
--------------------------------------------------

theorem half_lt (i : Nat) : p.half i < 65536 := by
  have low := (p.bytes i).toNat_lt
  have high := (p.bytes (i + 1)).toNat_lt
  unfold half
  omega

/-- The links determine the blocks up to the sentinel, by induction on them. -/
theorem Links.determined {stop : Nat} (links : p.Links a l stop) (links' : p.Links a l' stop)
    (inside : ∀ e ∈ l, e.addr < stop) (inside' : ∀ e ∈ l', e.addr < stop)
    : l = l' := by
  induction l generalizing a l' with
  | nil =>
      cases l' with
      | nil => rfl
      | cons e' rest' =>
          have stopped : a = stop := links
          exact absurd (links'.1.symm.trans stopped) (Nat.ne_of_lt (inside' e' List.mem_cons_self))
  | cons e rest ih =>
      obtain ⟨here, size, tail⟩ := links
      cases l' with
      | nil =>
          have stopped : a = stop := links'
          exact absurd (here.symm.trans stopped) (Nat.ne_of_lt (inside e List.mem_cons_self))
      | cons e' rest' =>
          obtain ⟨here', size', tail'⟩ := links'
          have same : e = e' := by
            cases e
            cases e'
            rw [Extent.mk.injEq]
            exact ⟨here.symm.trans here', size.symm.trans size'⟩
          have rest_eq := ih tail tail' (fun f mem => inside f (List.mem_cons_of_mem _ mem))
            fun f mem => inside' f (List.mem_cons_of_mem _ mem)
          rw [same, rest_eq]

/-- A pool has one free list. -/
theorem FreeList.unique (list : p.FreeList l) (list' : p.FreeList l') : l = l' :=
  list.links.determined list'.links (fun _ mem => list.addr_lt mem) fun _ mem => list'.addr_lt mem

/-- The free list depends on the headers and on `first_free`. -/
theorem FreeList.congr (list : p.FreeList l) (words : q.words = p.words) (first : q.firstFree = p.firstFree)
    (size : ∀ w, q.size w = p.size w) (toNext : ∀ w, q.toNext w = p.toNext w)
    : q.FreeList l where
  fits := words ▸ list.fits
  links := by
    rw [words, first]
    exact list.links.congr (fun _ _ => size _) fun _ _ => toNext _
  sentinelSize := by rw [size, words, list.sentinelSize]
  sentinelNext := by rw [toNext, words, list.sentinelNext]
  separated := words ▸ list.separated

--------------------------------------------------
-- What `mem_alloc` takes
--------------------------------------------------

/-- The rounding wraps at the last three sizes. -/
theorem toWords_eq_zero_iff : toWords bytes = 0 ↔ bytes = 0 ∨ 65532 < bytes := by
  constructor
  · intro zero
    by_cases small : bytes ≤ 65532
    · have rounded := toWords_of_le small
      refine .inl (UInt16.toNat_inj.mp ?_)
      rw [UInt16.toNat_zero]
      omega
    · exact .inr (UInt16.not_le.mp small)
  · rintro (rfl | large)
    · rfl
    · have bounds := bytes.toNat_lt
      have above : 65532 < bytes.toNat := UInt16.lt_iff_toNat_lt.mp large
      have cases_ : bytes = 65533 ∨ bytes = 65534 ∨ bytes = 65535 := by
        simp only [← UInt16.toNat_inj, UInt16.reduceToNat]
        omega
      rcases cases_ with rfl | rfl | rfl <;> rfl

/-- A block of no word is handed out where the first free block is, or the sentinel, and nothing is taken. -/
theorem FreeList.memAlloc_zero (list : p.FreeList l) (zero : toWords bytes = 0)
    : ∃ a q, p.memAlloc bytes = (some a, q) ∧ q.words = p.words ∧ q.FreeList l := by
  have stays : p.search (fun curr => p.size curr != 0 && p.size curr < 0) (p.words + 1) none p.firstFree
      = (none, p.firstFree) := by
    simp [Pool.search]
  have start := list.links.start
  unfold Pool.memAlloc
  simp only [zero, stays, ge_iff_le, Nat.zero_le, if_true]
  cases l with
  | nil =>
      have first : p.firstFree = p.words := start
      rw [first, if_pos list.sentinelSize, list.sentinelNext]
      exact ⟨_, _, rfl, rfl, list.fits, rfl, list.sentinelSize, list.sentinelNext, list.separated⟩
  | cons e rest =>
      have positive := (list.separated.mem_bounds List.mem_cons_self).2.1
      have size := list.links.size_of_mem List.mem_cons_self
      have first : p.firstFree = e.addr := start
      rw [first, if_neg (by omega)]
      simp only [size_advance, Nat.add_zero, Nat.sub_zero, toNext_setSize]
      -- the header of the first block is stored again
      refine ⟨_, _, rfl, rfl, list.congr rfl first.symm (fun w => ?_) fun w => ?_⟩
      · rw [size_setToNext]
        by_cases here : w = e.addr
        · rw [here]
          exact size_setSize_self (half_lt _)
        · rw [size_setSize_other here]
          rfl
      · by_cases here : w = e.addr
        · rw [here]
          exact toNext_setToNext_self (half_lt _)
        · rw [toNext_setToNext_other here, toNext_setSize]
          rfl

/-- `mem_alloc` hands out free words, as many as the rounding gives, and takes just these. -/
theorem FreeList.memAlloc_takes (list : p.FreeList l) (alloc : p.memAlloc bytes = (some a, q))
    : ∃ l', q.FreeList l' ∧ q.words = p.words
      ∧ (∀ w, (⟨a, toWords bytes⟩ : Extent).Holds w → Covers l w)
      ∧ ∀ w, Covers l' w ↔ Covers l w ∧ ¬ (⟨a, toWords bytes⟩ : Extent).Holds w := by
  by_cases zero : toWords bytes = 0
  · obtain ⟨a', q', alloc', words, list'⟩ := list.memAlloc_zero zero
    rw [alloc, Prod.mk.injEq] at alloc'
    obtain ⟨-, rfl⟩ := alloc'
    have none (w : Nat) : ¬ (⟨a, toWords bytes⟩ : Extent).Holds w := by
      rintro ⟨low, high⟩
      rw [Extent.stop, zero] at high
      exact absurd low (Nat.not_le.mpr high)
    exact ⟨l, list', words, fun w holds => absurd holds (none w), fun w => (and_iff_left (none w)).symm⟩
  · have nonzero := mt toWords_eq_zero_iff.mpr zero
    rw [not_or] at nonzero
    have n_pos := Nat.pos_of_ne_zero zero
    have spec := list.memAlloc (UInt16.pos_iff_ne_zero.mpr nonzero.1) (UInt16.not_lt.mp nonzero.2)
    cases found : takeFirst (toWords bytes) l with
    | none =>
        rw [found, alloc] at spec
        cases spec
    | some taken =>
        obtain ⟨a', l'⟩ := taken
        rw [found] at spec
        obtain ⟨q', alloc', words, list'⟩ := spec
        rw [alloc, Prod.mk.injEq, Option.some.injEq] at alloc'
        obtain ⟨rfl, rfl⟩ := alloc'
        obtain ⟨-, -, cover, apart⟩ := takeFirst_spec n_pos list.separated found
        refine ⟨l', list', words, fun w holds => (cover w).mpr (.inl holds), fun w => ?_⟩
        rw [cover w]
        constructor
        · exact fun covered => ⟨.inr covered, fun holds => apart w holds covered⟩
        · rintro ⟨holds | covered, outside⟩
          · exact absurd holds outside
          · exact covered

/-- An allocation takes as many bytes as its words have. -/
theorem FreeList.memAlloc_removes (list : p.FreeList l) (alloc : p.memAlloc bytes = (some a, q)) {n : Nat}
    : p.Removes q a n ↔ n ≤ 4 * toWords bytes := by
  obtain ⟨l', list', -, inside, covers⟩ := list.memAlloc_takes alloc
  constructor
  · rintro ⟨m, m', listed, listed', removed⟩
    rw [listed.unique list, listed'.unique list'] at removed
    by_contra less
    obtain ⟨covered, free⟩ := removed (a + toWords bytes) (Nat.le_add_right _ _) (by omega)
    exact free ((covers _).mpr ⟨covered, fun holds => Nat.lt_irrefl _ holds.2⟩)
  · intro enough
    refine ⟨l, l', list, list', fun w low high => ?_⟩
    have holds : (⟨a, toWords bytes⟩ : Extent).Holds w := ⟨low, by simp only [Extent.stop]; omega⟩
    exact ⟨inside w holds, fun covered => ((covers w).mp covered).2 holds⟩

/-- `mem_alloc` fails exactly where it asks for words and no free block has as many. -/
theorem FreeList.memAlloc_none_iff (list : p.FreeList l)
    : (p.memAlloc bytes).1 = none ↔ 0 < toWords bytes ∧ ∀ e ∈ l, e.size < toWords bytes := by
  by_cases zero : toWords bytes = 0
  · obtain ⟨a, q, alloc, -, -⟩ := list.memAlloc_zero zero
    rw [alloc, zero]
    exact iff_of_false (Option.some_ne_none a) fun both => Nat.lt_irrefl 0 both.1
  · have nonzero := mt toWords_eq_zero_iff.mpr zero
    rw [not_or] at nonzero
    have spec := list.memAlloc (UInt16.pos_iff_ne_zero.mpr nonzero.1) (UInt16.not_lt.mp nonzero.2)
    rw [and_iff_right (Nat.pos_of_ne_zero zero), ← takeFirst_eq_none_iff]
    cases found : takeFirst (toWords bytes) l with
    | none =>
        rw [found] at spec
        have failed : p.memAlloc bytes = (none, p) := spec
        rw [failed]
        exact iff_of_true rfl rfl
    | some taken =>
        obtain ⟨a', l'⟩ := taken
        rw [found] at spec
        obtain ⟨q', alloc', -⟩ := spec
        rw [alloc']
        exact iff_of_false (Option.some_ne_none a') (Option.some_ne_none _)

--------------------------------------------------
-- `mem_alloc`
--------------------------------------------------

/-- The rounding gives enough words up to 65532 bytes. -/
theorem le_toWords_iff : bytes.toNat ≤ 4 * toWords bytes ↔ bytes ≤ 65532 := by
  constructor
  · intro enough
    by_contra large
    rw [toWords_eq_zero_iff.mpr (.inr (UInt16.not_le.mp large))] at enough
    exact large (UInt16.le_iff_toNat_le.mpr (Nat.le_trans enough (Nat.zero_le _)))
  · intro small
    rw [toWords_of_le small]
    omega

theorem FreeList.allocGives_iff (list : p.FreeList l) : p.AllocGives bytes ↔ bytes ≤ 65532 := by
  constructor
  · intro gives
    by_contra large
    obtain ⟨a, q, alloc, -, -⟩ := list.memAlloc_zero (toWords_eq_zero_iff.mpr (.inr (UInt16.not_le.mp large)))
    exact large (le_toWords_iff.mp ((list.memAlloc_removes alloc).mp (gives a q alloc)))
  · intro small a q alloc
    exact (list.memAlloc_removes alloc).mpr (le_toWords_iff.mpr small)

--------------------------------------------------
-- `mem_realloc`
--------------------------------------------------

@[simp] theorem words_copy (dst src n : Nat) : (p.copy dst src n).words = p.words := by
  induction n with
  | zero => rfl
  | succ n ih => exact ih

/-- A copy to words that are not free leaves the free list, by induction on its bytes. -/
theorem FreeList.copy (list : p.FreeList l) (dst src : Nat) {n : Nat}
    (outside : ∀ w, dst ≤ w → 4 * w < 4 * dst + n → w < p.words ∧ ¬ Covers l w)
    : (p.copy dst src n).FreeList l := by
  induction n with
  | zero => exact list
  | succ n ih =>
      have before := ih fun w low high => outside w low (by omega)
      obtain ⟨inside, free⟩ := outside ((4 * dst + n) / 4) (by omega) (by omega)
      refine before.store (fun e mem same => free ⟨e, mem, ?_⟩) (by rwa [words_copy])
      have positive := (list.separated.mem_bounds mem).2.1
      rw [same]
      exact ⟨Nat.le_refl _, Nat.lt_add_of_pos_right positive⟩

/-- Freeing a block that is held puts nothing on the free list but its words. -/
theorem FreeList.memFree_held (list : p.FreeList l) {ptr : Nat} {size : UInt16} (small : size ≤ 65532)
    (held : p.Held l ptr size)
    : ∃ l', (p.memFree (some ptr) size).FreeList l'
      ∧ ∀ w, Covers l' w → Covers l w ∨ ptr ≤ w ∧ 4 * w < 4 * ptr + size.toNat := by
  by_cases zero : size = 0
  · have same : p.memFree (some ptr) size = p := if_pos zero
    rw [same]
    exact ⟨l, list, fun w covered => .inl covered⟩
  · have positive := UInt16.pos_iff_ne_zero.mpr zero
    have n_pos := toWords_pos positive small
    have rounded := toWords_of_le small
    have own (w : Nat) : (⟨ptr, toWords size⟩ : Extent).Holds w ↔ ptr ≤ w ∧ 4 * w < 4 * ptr + size.toNat := by
      simp only [Extent.Holds, Extent.stop]
      omega
    have bound : ptr + toWords size ≤ p.words := by
      have last := (held (ptr + toWords size - 1) (by omega) (by omega)).1
      omega
    have apart : ∀ f ∈ l, (⟨ptr, toWords size⟩ : Extent).Apart f := by
      intro f mem
      refine (Extent.apart_iff n_pos (list.separated.mem_bounds mem).2.1).mpr fun w holds free => ?_
      obtain ⟨low, high⟩ := (own w).mp holds
      exact (held w low high).2 ⟨f, mem, free⟩
    refine ⟨_, (list.memFree positive small bound apart).2, fun w covered => ?_⟩
    rcases (release_covers ..).mp covered with holds | free
    · exact .inr ((own w).mp holds)
    · exact .inl free

/-- The sum wraps where the sizes do not fit. -/
theorem add_le_toWords_iff {size sizeToAdd : UInt16}
    : size.toNat + sizeToAdd.toNat ≤ 4 * toWords (size + sizeToAdd) ↔ size.toNat + sizeToAdd.toNat ≤ 65532 := by
  have sum := UInt16.toNat_add size sizeToAdd
  have size_lt := size.toNat_lt
  have add_lt := sizeToAdd.toNat_lt
  constructor
  · intro enough
    by_contra large
    by_cases small : size + sizeToAdd ≤ 65532
    · have rounded := toWords_of_le small
      rw [UInt16.le_iff_toNat_le] at small
      have limit : (65532 : UInt16).toNat = 65532 := rfl
      omega
    · rw [toWords_eq_zero_iff.mpr (.inr (UInt16.not_le.mp small))] at enough
      omega
  · intro small
    have same : (size + sizeToAdd).toNat = size.toNat + sizeToAdd.toNat := by omega
    rw [← same]
    refine le_toWords_iff.mpr (UInt16.le_iff_toNat_le.mpr ?_)
    rw [same]
    exact small

/-- Where the sum fits, the old block is copied into the new one and freed. -/
theorem FreeList.memRealloc_removes (list : p.FreeList l) {ptr : Nat} {size sizeToAdd : UInt16}
    (held : p.Held l ptr size) (fits : size.toNat + sizeToAdd.toNat ≤ 65532)
    (alloc : p.memAlloc (size + sizeToAdd) = (some a, q))
    : p.Removes ((q.copy a ptr size.toNat).memFree (some ptr) size) a (size.toNat + sizeToAdd.toNat) := by
  obtain ⟨l', list', words, inside, covers⟩ := list.memAlloc_takes alloc
  have enough := add_le_toWords_iff.mpr fits
  have own {w : Nat} (low : a ≤ w) (high : 4 * w < 4 * a + (size.toNat + sizeToAdd.toNat))
      : (⟨a, toWords (size + sizeToAdd)⟩ : Extent).Holds w :=
    ⟨low, by simp only [Extent.stop]; omega⟩
  have copied : (q.copy a ptr size.toNat).FreeList l' := by
    refine list'.copy a ptr fun w low high => ?_
    have holds := own low (by omega)
    refine ⟨?_, fun covered => ((covers w).mp covered).2 holds⟩
    rw [words]
    exact (list.separated.covers_bounds (inside w holds)).2
  have held' : (q.copy a ptr size.toNat).Held l' ptr size := by
    intro w low high
    obtain ⟨bound, free⟩ := held w low high
    rw [words_copy, words]
    exact ⟨bound, fun covered => free ((covers w).mp covered).1⟩
  have small : size ≤ 65532 := UInt16.le_iff_toNat_le.mpr (Nat.le_trans (Nat.le_add_right _ _) fits)
  obtain ⟨l'', list'', freed⟩ := copied.memFree_held small held'
  refine ⟨l, l'', list, list'', fun w low high => ?_⟩
  have holds := own low high
  refine ⟨inside w holds, fun covered => ?_⟩
  rcases freed w covered with covered | ⟨low', high'⟩
  · exact ((covers w).mp covered).2 holds
  · exact (held w low' high').2 (inside w holds)

theorem memRealloc_eq_some_iff {ptr : Nat} {size sizeToAdd : UInt16}
    : p.memRealloc ptr size sizeToAdd = (some a, q)
      ↔ ∃ q', p.memAlloc (size + sizeToAdd) = (some a, q')
        ∧ (q'.copy a ptr size.toNat).memFree (some ptr) size = q := by
  unfold memRealloc
  rcases p.memAlloc (size + sizeToAdd) with ⟨_ | b, q'⟩
  · simp
  · simp only [Prod.mk.injEq, Option.some.injEq]
    constructor
    · rintro ⟨rfl, freed⟩
      exact ⟨q', ⟨rfl, rfl⟩, freed⟩
    · rintro ⟨_, ⟨rfl, rfl⟩, freed⟩
      exact ⟨rfl, freed⟩

/-- An extended block is as large as it should be exactly where the sum fits, unless the allocation fails. -/
theorem FreeList.reallocGives_iff (list : p.FreeList l) {ptr : Nat} {size sizeToAdd : UInt16}
    (held : p.Held l ptr size)
    : p.ReallocGives ptr size sizeToAdd
      ↔ size.toNat + sizeToAdd.toNat ≤ 65532
        ∨ 0 < toWords (size + sizeToAdd) ∧ ∀ e ∈ l, e.size < toWords (size + sizeToAdd) := by
  rw [← list.memAlloc_none_iff]
  constructor
  · intro gives
    cases alloc : p.memAlloc (size + sizeToAdd) with
    | mk result q' =>
        cases result with
        | none => exact .inr rfl
        | some a =>
            obtain ⟨⟨q, alloc', removed⟩, -⟩ := gives a _ (memRealloc_eq_some_iff.mpr ⟨q', alloc, rfl⟩)
            exact .inl (add_le_toWords_iff.mp ((list.memAlloc_removes alloc').mp removed))
  · rintro cases_ a q given
    obtain ⟨q', alloc, rfl⟩ := memRealloc_eq_some_iff.mp given
    rcases cases_ with fits | failed
    · exact ⟨⟨q', alloc, (list.memAlloc_removes alloc).mpr (add_le_toWords_iff.mpr fits)⟩,
        list.memRealloc_removes held fits alloc⟩
    · rw [alloc] at failed
      cases failed

--------------------------------------------------
-- Allocation sizes
--------------------------------------------------

/-- In every pool state `mem_alloc` takes as many bytes as were asked for exactly up to 65532 bytes, and `mem_realloc`
of a block that is held where the sum of the sizes is at most 65532 or the allocation of the sum in 16 bits fails.
-/
theorem allocation_sizes (list : p.FreeList l)
    : (∀ size : UInt16, p.AllocGives size ↔ size ≤ 65532)
      ∧ ∀ (ptr : Nat) (size sizeToAdd : UInt16), p.Held l ptr size →
        (p.ReallocGives ptr size sizeToAdd
          ↔ size.toNat + sizeToAdd.toNat ≤ 65532
            ∨ 0 < toWords (size + sizeToAdd) ∧ ∀ e ∈ l, e.size < toWords (size + sizeToAdd)) :=
  ⟨fun _ => list.allocGives_iff, fun _ _ _ held => list.reallocGives_iff held⟩

/-- Five bytes of a pool of six words are allocated. -/
theorem fiveBytes_held : ∃ p : Pool, (init 6).memAlloc 5 = (some 0, p) ∧ p.FreeList [⟨2, 4⟩] ∧ p.Held [⟨2, 4⟩] 0 5 := by
  have start : (init 6).FreeList [⟨0, 6⟩] := freeList_init (by decide)
  have taken : takeFirst (toWords 5) [⟨0, 6⟩] = some (0, [⟨2, 4⟩]) := by decide
  have spec := start.memAlloc (by decide : 0 < (5 : UInt16)) (by decide)
  rw [taken] at spec
  obtain ⟨p, alloc, words, list⟩ := spec
  refine ⟨p, alloc, list, fun w _ high => ?_⟩
  have size : (5 : UInt16).toNat = 5 := rfl
  have bound : p.words = 6 := words
  rw [covers_cons, covers_nil, or_false]
  simp only [Extent.Holds]
  omega

/-- The block of five bytes is extended by three. -/
theorem allocation_sizes_extended
    : ∃ p q : Pool, p.memRealloc 0 5 3 = (some 2, q) ∧ p.Removes q 2 8 := by
  obtain ⟨p, -, list, held⟩ := fiveBytes_held
  obtain ⟨-, extended⟩ := allocation_sizes list
  have taken : takeFirst (toWords (5 + 3)) [⟨2, 4⟩] = some (2, [⟨4, 2⟩]) := by decide
  have spec := list.memAlloc (by decide : 0 < (5 + 3 : UInt16)) (by decide)
  rw [taken] at spec
  obtain ⟨q, alloc, -⟩ := spec
  have given : p.memRealloc 0 5 3 = (some 2, (q.copy 2 0 5).memFree (some 0) 5) :=
    memRealloc_eq_some_iff.mpr ⟨q, alloc, rfl⟩
  exact ⟨p, _, given, (((extended 0 5 3 held).mpr (.inl (by decide))) 2 _ given).2⟩

/-- For 65533 bytes the first free block is handed out, and nothing is taken. Neither is when a block of five bytes is
extended by 65531.
-/
theorem allocation_sizes_wrap
    : ∃ p : Pool, ∃ l, p.FreeList l ∧ p.Held l 0 5 ∧ ¬ p.AllocGives 65533 ∧ ¬ p.ReallocGives 0 5 65531 := by
  obtain ⟨p, -, list, held⟩ := fiveBytes_held
  refine ⟨p, _, list, held, mt list.allocGives_iff.mp (by decide), mt (list.reallocGives_iff held).mp (by decide)⟩

end Pool

end Smews.Memory
