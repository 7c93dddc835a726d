import Smews.Library.Runs
import Smews.Memory.FreeList

/-! Whole histories of allocator calls: the blocks handed out and the free list together
always tile the pool.
-/

namespace Smews.Memory

open Extents Runs

/-- A block handed out: the word it starts at and the size in bytes it was asked for. -/
structure Block where
  addr : Nat
  bytes : UInt16
deriving DecidableEq, Repr

/-- The words of a block. -/
def Block.extent (b : Block) : Extent := ⟨b.addr, Pool.toWords b.bytes⟩

/-- One use of the allocator by the rest of the server. `store` is a write of the owner into
a block handed out.
-/
inductive Call
  | alloc (bytes : UInt16)
  | free (b : Block)
  | realloc (b : Block) (sizeToAdd : UInt16)
  | store (i : Nat) (v : UInt8)

/-- The pool, and the blocks handed out and not yet freed. -/
structure State where
  pool : Pool
  live : List Block

/-- Sizes are at least one byte and at most 65532, the sum `mem_realloc` asks for included;
blocks are freed with the size they were allocated with; stores stay inside their block.
-/
def Call.Admissible (live : List Block) : Call → Prop
  | .alloc bytes => 0 < bytes ∧ bytes ≤ 65532
  | .free b => b ∈ live
  | .realloc b sizeToAdd => b ∈ live ∧ b.bytes.toNat + sizeToAdd.toNat ≤ 65532
  | .store i _ => ∃ b ∈ live, b.extent.Holds (i / 4)

/-- The state after a call. -/
def State.after (s : State) : Call → State
  | .alloc bytes =>
      match s.pool.memAlloc bytes with
      | (none, q) => ⟨q, s.live⟩
      | (some a, q) => ⟨q, ⟨a, bytes⟩ :: s.live⟩
  | .free b => ⟨s.pool.memFree (some b.addr) b.bytes, s.live.erase b⟩
  | .realloc b sizeToAdd =>
      match s.pool.memRealloc b.addr b.bytes sizeToAdd with
      | (none, q) => ⟨q, s.live.erase b⟩
      | (some a, q) => ⟨q, ⟨a, b.bytes + sizeToAdd⟩ :: s.live.erase b⟩
  | .store i v => ⟨s.pool.store i v, s.live⟩

/-- An admissible call and its result. -/
def Step (s : State) (call : Call) (s' : State) : Prop :=
  call.Admissible s.live ∧ s' = s.after call

/-- The allocator after `mem_reset`, with nothing handed out. -/
def State.start (words : Nat) : State := ⟨Pool.init words, []⟩

/-- The blocks handed out are disjoint, lie in the pool and share no word with the free list
`free`; together they make up the whole pool.
-/
structure Sound (words : Nat) (s : State) (free : List Extent) : Prop where
  words_eq : s.pool.words = words
  freeList : s.pool.FreeList free
  sizes : ∀ b ∈ s.live, 0 < b.bytes ∧ b.bytes ≤ 65532
  inside : ∀ b ∈ s.live, b.extent.stop ≤ words
  disjoint : s.live.Pairwise (fun b c => b.extent.Apart c.extent)
  apart : ∀ b ∈ s.live, ∀ w, b.extent.Holds w → ¬ Covers free w
  whole : total free + total (s.live.map Block.extent) = words

variable {words : Nat} {s : State} {free : List Extent}

theorem Sound.extent_pos (h : Sound words s free) {b : Block} (member : b ∈ s.live)
    : 0 < b.extent.size :=
  Pool.toWords_pos (h.sizes b member).1 (h.sizes b member).2

/-- A block handed out is apart from every free block. -/
theorem Sound.apart_free (h : Sound words s free) {b : Block} (member : b ∈ s.live)
    {f : Extent} (inFree : f ∈ free)
    : b.extent.Apart f := by
  have nonempty := (h.freeList.separated.mem_bounds inFree).2.1
  refine (Extent.apart_iff (h.extent_pos member) nonempty).mpr ?_
  intro w inBlock inF
  exact h.apart b member w inBlock ⟨f, inFree, inF⟩

/-- The invariant does not depend on the order of the blocks handed out. -/
theorem Sound.perm (h : Sound words s free) {live : List Block} (perm : s.live.Perm live)
    : Sound words ⟨s.pool, live⟩ free :=
  {
    words_eq := h.words_eq
    freeList := h.freeList
    sizes := fun b member => h.sizes b (perm.mem_iff.mpr member)
    inside := fun b member => h.inside b (perm.mem_iff.mpr member)
    disjoint := (perm.pairwise_iff (fun apart => Or.symm apart)).mp h.disjoint
    apart := fun b member => h.apart b (perm.mem_iff.mpr member)
    whole := by
      rw [← total_perm (perm.map Block.extent)]
      exact h.whole
  }

/-- `mem_alloc` either changes nothing, as no free block is large enough, or hands out the
front of a free block.
-/
theorem Sound.alloc (h : Sound words s free) {bytes : UInt16} (positive : 0 < bytes)
    (small : bytes ≤ 65532)
    : (s.pool.memAlloc bytes = (none, s.pool) ∧ ∀ f ∈ free, f.size < Pool.toWords bytes)
      ∨ ∃ a q free', s.pool.memAlloc bytes = (some a, q)
          ∧ Sound words ⟨q, ⟨a, bytes⟩ :: s.live⟩ free' := by
  have n_pos := Pool.toWords_pos positive small
  have spec := h.freeList.memAlloc positive small
  cases found : takeFirst (Pool.toWords bytes) free with
  | none =>
      rw [found] at spec
      exact Or.inl ⟨spec, takeFirst_eq_none_iff.mp found⟩
  | some taken =>
      obtain ⟨a, free'⟩ := taken
      rw [found] at spec
      obtain ⟨q, result, words_q, list⟩ := spec
      obtain ⟨_, sizes, cover, split⟩ := takeFirst_spec n_pos h.freeList.separated found
      set e : Extent := ⟨a, Pool.toWords bytes⟩ with e_def
      have fromFree {w : Nat} (holds : e.Holds w) : Covers free w := (cover w).mpr (Or.inl holds)
      refine Or.inr ⟨a, q, free', result, ?_⟩
      exact {
        words_eq := words_q.trans h.words_eq
        freeList := list
        sizes := by
          intro b member
          rcases List.mem_cons.mp member with same | old
          · exact same ▸ ⟨positive, small⟩
          · exact h.sizes b old
        inside := by
          intro b member
          rcases List.mem_cons.mp member with same | old
          · subst same
            have last : e.Holds (a + Pool.toWords bytes - 1) := by
              simp only [Extent.Holds, Extent.stop, e_def]
              omega
            have bound := (h.freeList.separated.covers_bounds (fromFree last)).2
            rw [h.words_eq] at bound
            simp only [Block.extent, Extent.stop]
            omega
          · exact h.inside b old
        disjoint := by
          refine List.Pairwise.cons ?_ h.disjoint
          intro b old
          exact (Extent.apart_iff (e := e) n_pos (h.extent_pos old)).mpr
            (fun w holds inB => h.apart b old w inB (fromFree holds))
        apart := by
          intro b member w holds covered
          rcases List.mem_cons.mp member with same | old
          · subst same
            exact split w holds covered
          · exact h.apart b old w holds ((cover w).mpr (Or.inr covered))
        whole := by
          have whole := h.whole
          simp only [List.map_cons, total_cons, Block.extent] at whole ⊢
          omega
      }

/-- `mem_free` of a block handed out gives its words back to the free list. -/
theorem Sound.release {b : Block} {live : List Block} (h : Sound words ⟨s.pool, b :: live⟩ free)
    : Sound words ⟨s.pool.memFree (some b.addr) b.bytes, live⟩ (release b.extent free) := by
  have member : b ∈ b :: live := by simp
  obtain ⟨positive, small⟩ := h.sizes b member
  have bound := h.inside b member
  have result := h.freeList.memFree positive small
    (show b.addr + Pool.toWords b.bytes ≤ s.pool.words by rw [h.words_eq]; exact bound)
    (fun f inFree => h.apart_free member inFree)
  obtain ⟨first, rest⟩ := List.pairwise_cons.mp h.disjoint
  exact {
    words_eq := result.1.trans h.words_eq
    freeList := result.2
    sizes := fun c old => h.sizes c (by simp [old])
    inside := fun c old => h.inside c (by simp [old])
    disjoint := rest
    apart := by
      intro c old w holds covered
      rcases (release_covers ..).mp covered with inB | inFree
      · have pos := h.extent_pos (b := c) (by simp [old])
        exact (Extent.apart_iff (h.extent_pos member) pos).mp (first c old) w inB holds
      · exact h.apart c (by simp [old]) w holds inFree
    whole := by
      have whole := h.whole
      simp only [List.map_cons, total_cons] at whole
      simp only [release_total]
      omega
  }

/-- A store into a block handed out disturbs nothing. -/
theorem Sound.store (h : Sound words s free) {i : Nat} {v : UInt8} {b : Block}
    (member : b ∈ s.live) (holds : b.extent.Holds (i / 4))
    : Sound words ⟨s.pool.store i v, s.live⟩ free := by
  have list : (s.pool.store i v).FreeList free := by
    refine h.freeList.store ?_ ?_
    · intro f inFree same
      have nonempty := (h.freeList.separated.mem_bounds inFree).2.1
      have inF : f.Holds (i / 4) := by
        simp only [Extent.Holds, Extent.stop]
        omega
      exact h.apart b member _ holds ⟨f, inFree, inF⟩
    · have bound := h.inside b member
      rw [h.words_eq]
      exact Nat.lt_of_lt_of_le holds.2 bound
  exact { h with freeList := list, words_eq := h.words_eq }

/-- The copy of `mem_realloc` stays inside the new block, by induction on the bytes copied. -/
theorem Sound.copy (h : Sound words s free) {b : Block} (member : b ∈ s.live) (src : Nat)
    {n : Nat} (short : n ≤ b.bytes.toNat)
    : Sound words ⟨s.pool.copy b.addr src n, s.live⟩ free := by
  induction n with
  | zero => exact h
  | succ n ih =>
      refine (ih (by omega)).store member ?_
      have size := Pool.toWords_of_le (h.sizes b member).2
      simp only [Extent.Holds, Extent.stop, Block.extent, size]
      omega

/-- Every admissible call keeps the invariant, by cases on the call. -/
theorem Sound.step (h : Sound words s free) {call : Call} {s' : State} (step : Step s call s')
    : ∃ free', Sound words s' free' := by
  obtain ⟨admissible, rfl⟩ := step
  cases call with
  | alloc bytes =>
      rcases h.alloc admissible.1 admissible.2 with ⟨result, _⟩ | ⟨a, q, free', result, sound⟩
      · exact ⟨free, by simpa only [State.after, result] using h⟩
      · exact ⟨free', by simpa only [State.after, result] using sound⟩
  | free b =>
      have moved := h.perm (List.perm_cons_erase admissible)
      exact ⟨_, moved.release⟩
  | realloc b sizeToAdd =>
      obtain ⟨member, bound⟩ := admissible
      have sum : (b.bytes + sizeToAdd).toNat = b.bytes.toNat + sizeToAdd.toNat := by
        rw [UInt16.toNat_add]
        omega
      have positive : 0 < b.bytes + sizeToAdd := by
        have := (h.sizes b member).1
        simp only [UInt16.lt_iff_toNat_lt, UInt16.toNat_zero, sum] at this ⊢
        omega
      have small : b.bytes + sizeToAdd ≤ 65532 := by
        rw [UInt16.le_iff_toNat_le, sum]
        exact bound
      rcases h.alloc positive small with ⟨result, _⟩ | ⟨a, q, free', result, sound⟩
      · have moved := h.perm (List.perm_cons_erase member)
        exact ⟨_, by simpa only [State.after, Pool.memRealloc, result] using moved.release⟩
      · have copied := sound.copy (b := ⟨a, b.bytes + sizeToAdd⟩) (by simp) b.addr
          (n := b.bytes.toNat) (by rw [sum]; omega)
        have swapped : (⟨a, b.bytes + sizeToAdd⟩ :: s.live).Perm
            (b :: ⟨a, b.bytes + sizeToAdd⟩ :: s.live.erase b) :=
          ((List.perm_cons_erase member).cons _).trans (List.Perm.swap ..)
        have moved := copied.perm swapped
        exact ⟨_, by simpa only [State.after, Pool.memRealloc, result] using moved.release⟩
  | store i v =>
      obtain ⟨b, member, holds⟩ := admissible
      exact ⟨free, h.store member holds⟩

/-- Every history of admissible calls from `mem_reset` on leaves a sound allocator. -/
theorem sound_of_run (fits : words < 65536) {calls : List Call}
    (run : Run Step (State.start words) calls s)
    : ∃ free, Sound words s free := by
  refine run.invariant (fun s => ∃ free, Sound words s free) ?_ ?_
  · rintro s call s' ⟨free, sound⟩ step
    exact sound.step step
  · refine ⟨Pool.initial words, ?_⟩
    exact {
      words_eq := rfl
      freeList := Pool.freeList_init fits
      sizes := by simp [State.start]
      inside := by simp [State.start]
      disjoint := by simp [State.start]
      apart := by simp [State.start]
      whole := by
        by_cases empty : words = 0 <;> simp [Pool.initial, State.start, empty]
    }

/-- After any history of admissible calls the blocks handed out are pairwise disjoint, lie in
the pool and share nothing with the free list; the free list is sorted, coalesced and
correctly linked; no word is lost; `mem_alloc` fails only where no free block is large
enough; and with everything freed the list is the initial one again.
-/
theorem allocator_correct (fits : words < 65536) {calls : List Call}
    (run : Run Step (State.start words) calls s)
    : ∃ free : List Extent,
        s.pool.FreeList free
        ∧ free.Pairwise (fun e f => e.stop < f.addr)
        ∧ s.live.Pairwise (fun b c => b.extent.Apart c.extent)
        ∧ (∀ b ∈ s.live, b.extent.stop ≤ words ∧ ∀ f ∈ free, b.extent.Apart f)
        ∧ total free + total (s.live.map Block.extent) = words
        ∧ s.pool.getFreeMem = 4 * total free
        ∧ (∀ bytes, 0 < bytes → bytes ≤ 65532 → (s.pool.memAlloc bytes).1 = none
            → ∀ f ∈ free, f.size < Pool.toWords bytes)
        ∧ (s.live = [] → free = Pool.initial words) := by
  obtain ⟨free, sound⟩ := sound_of_run fits run
  refine ⟨free, sound.freeList, sound.freeList.separated.pairwise, sound.disjoint, ?_,
    sound.whole, sound.freeList.getFreeMem, ?_, ?_⟩
  · exact fun b member => ⟨sound.inside b member, fun f inFree => sound.apart_free member inFree⟩
  · intro bytes positive small failed
    rcases sound.alloc positive small with ⟨_, none_fits⟩ | ⟨a, q, free', result, _⟩
    · exact none_fits
    · rw [result] at failed
      cases failed
  · intro nothing
    have full : total free = words := by simpa [nothing] using sound.whole
    have sep := sound.words_eq ▸ sound.freeList.separated
    by_cases empty : words = 0
    · have short := sep.length_le
      simp only [Pool.initial, empty, if_true]
      exact List.eq_nil_of_length_eq_zero (by omega)
    · simp only [Pool.initial, empty, if_false]
      exact sep.eq_single full (Nat.pos_of_ne_zero empty)

/-- Allocating five bytes of a pool of four words and freeing them again. -/
theorem allocator_correct_four_words
    : ∃ free : List Extent,
        (((State.start 4).after (.alloc 5)).after (.free ⟨0, 5⟩)).pool.FreeList free
        ∧ free = [⟨0, 4⟩] := by
  have run : Run Step (State.start 4) [.alloc 5, .free ⟨0, 5⟩]
      (((State.start 4).after (.alloc 5)).after (.free ⟨0, 5⟩)) :=
    have sizes : (0 : UInt16) < 5 ∧ (5 : UInt16) ≤ 65532 := by decide
    .cons ⟨sizes, rfl⟩ (.cons ⟨List.mem_cons_self, rfl⟩ (.nil _))
  obtain ⟨free, list, _, _, _, _, _, _, again⟩ := allocator_correct (by decide) run
  exact ⟨free, list, again rfl⟩

end Smews.Memory
