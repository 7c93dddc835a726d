import Mathlib.Algebra.GroupWithZero.Nat
import Mathlib.Data.List.Basic

/-! Coalesced lists of disjoint intervals of natural numbers, as first-fit allocators keep
them: taking a prefix of the first interval that is large enough, and putting an interval
back while merging it with its neighbours.
-/

namespace Extents

/-- The half-open interval of `size` numbers from `addr` on. -/
structure Extent where
  addr : Nat
  size : Nat
deriving DecidableEq, Repr

/-- The first number after the interval. -/
def Extent.stop (e : Extent) : Nat := e.addr + e.size

/-- `w` lies in the interval. -/
def Extent.Holds (e : Extent) (w : Nat) : Prop := e.addr ≤ w ∧ w < e.stop

/-- The two intervals share no number. -/
def Extent.Apart (e f : Extent) : Prop := e.stop ≤ f.addr ∨ f.stop ≤ e.addr

/-- `w` lies in one of the intervals. -/
def Covers (l : List Extent) (w : Nat) : Prop := ∃ e ∈ l, e.Holds w

/-- The number of numbers covered, counting overlaps twice. -/
def total (l : List Extent) : Nat := (l.map Extent.size).sum

/-- Nonempty intervals between `lo` and `hi` in strictly increasing order, any two of them
with a gap in between.
-/
def Separated : Nat → Nat → List Extent → Prop
  | lo, hi, [] => lo ≤ hi + 1
  | lo, hi, e :: rest => lo ≤ e.addr ∧ 0 < e.size ∧ Separated (e.stop + 1) hi rest

/-- Cut the first `n` numbers off the first interval that has as many. -/
def takeFirst (n : Nat) : List Extent → Option (Nat × List Extent)
  | [] => none
  | e :: rest =>
      if e.size < n then (takeFirst n rest).map (fun found => (found.1, e :: found.2))
      else if e.size = n then some (e.addr, rest)
      else some (e.addr, ⟨e.addr + n, e.size - n⟩ :: rest)

/-- Put `e` in front of the list, merged with the first interval if it ends where that
one starts.
-/
def join (e : Extent) : List Extent → List Extent
  | [] => [e]
  | f :: rest => if e.stop = f.addr then ⟨e.addr, e.size + f.size⟩ :: rest else e :: f :: rest

/-- Put `e` back at its place, merged with the intervals it touches. -/
def release (e : Extent) : List Extent → List Extent
  | [] => [e]
  | f :: rest => if f.addr < e.addr then join f (release e rest) else join e (f :: rest)

-----------------------------------------------------------------------------------------
-- Coverage and sizes
-----------------------------------------------------------------------------------------

@[simp] theorem covers_nil (w : Nat) : Covers [] w ↔ False := by
  simp [Covers]

@[simp] theorem covers_cons (e : Extent) (l : List Extent) (w : Nat)
    : Covers (e :: l) w ↔ e.Holds w ∨ Covers l w := by
  simp [Covers]

@[simp] theorem total_nil : total [] = 0 := rfl

@[simp] theorem total_cons (e : Extent) (l : List Extent)
    : total (e :: l) = e.size + total l := by
  simp [total]

theorem total_perm {l m : List Extent} (perm : l.Perm m) : total l = total m :=
  (perm.map Extent.size).sum_nat

/-- Apartness and sharing no number agree for nonempty intervals. -/
theorem Extent.apart_iff {e f : Extent} (he : 0 < e.size) (hf : 0 < f.size)
    : e.Apart f ↔ ∀ w, e.Holds w → ¬ f.Holds w := by
  simp only [Extent.Apart, Extent.Holds, Extent.stop]
  constructor
  · intro apart w inE inF
    omega
  · intro none
    by_contra overlap
    have meet := none (max e.addr f.addr)
    omega

-----------------------------------------------------------------------------------------
-- Separated lists
-----------------------------------------------------------------------------------------

theorem Separated.weaken {lo lo' hi : Nat} {l : List Extent}
    (h : Separated lo hi l) (le : lo' ≤ lo)
    : Separated lo' hi l := by
  cases l with
  | nil =>
      simp only [Separated] at h ⊢
      omega
  | cons e rest => exact ⟨by have := h.1; omega, h.2⟩

/-- The lower bound of a separated list leaves at most one number above `hi`. -/
theorem Separated.lo_le {lo hi : Nat} {l : List Extent} (h : Separated lo hi l)
    : lo ≤ hi + 1 := by
  induction l generalizing lo with
  | nil => exact h
  | cons e rest ih =>
      have tail := ih h.2.2
      have head := h.1
      simp only [Extent.stop] at tail
      omega

/-- Every interval of a separated list is nonempty and lies between the bounds. -/
theorem Separated.mem_bounds {lo hi : Nat} {l : List Extent} (h : Separated lo hi l)
    {e : Extent} (member : e ∈ l)
    : lo ≤ e.addr ∧ 0 < e.size ∧ e.stop ≤ hi := by
  induction l generalizing lo with
  | nil => cases member
  | cons f rest ih =>
      rcases List.mem_cons.mp member with same | below
      · subst same
        have tail := h.2.2.lo_le
        exact ⟨h.1, h.2.1, by omega⟩
      · have tail := ih h.2.2 below
        have head := h.1
        simp only [Extent.stop] at tail ⊢
        omega

theorem Separated.covers_bounds {lo hi : Nat} {l : List Extent} (h : Separated lo hi l)
    {w : Nat} (covered : Covers l w)
    : lo ≤ w ∧ w < hi := by
  obtain ⟨e, member, holds⟩ := covered
  have bounds := h.mem_bounds member
  simp only [Extent.Holds] at holds
  omega

/-- Dropping a prefix of a separated list leaves a separated list above every interval of
the prefix.
-/
theorem Separated.append {lo hi : Nat} {before rest : List Extent}
    (h : Separated lo hi (before ++ rest))
    : Separated lo hi rest ∧ ∀ e ∈ before, Separated (e.stop + 1) hi rest := by
  induction before generalizing lo with
  | nil => exact ⟨h, by simp⟩
  | cons f before ih =>
      obtain ⟨low, positive, tail⟩ := h
      obtain ⟨after, above⟩ := ih tail
      refine ⟨after.weaken (by simp only [Extent.stop]; omega), ?_⟩
      intro e member
      rcases List.mem_cons.mp member with same | below
      · exact same ▸ after
      · exact above e below

/-- An initial part of a separated list is separated. -/
theorem Separated.front {lo hi : Nat} {before rest : List Extent}
    (h : Separated lo hi (before ++ rest))
    : Separated lo hi before := by
  induction before generalizing lo with
  | nil => exact h.lo_le
  | cons e before ih => exact ⟨h.1, h.2.1, ih h.2.2⟩

/-- Along a separated list addresses grow strictly. -/
theorem Separated.pairwise {lo hi : Nat} {l : List Extent} (h : Separated lo hi l)
    : l.Pairwise (fun e f => e.stop < f.addr) := by
  induction l generalizing lo with
  | nil => exact List.Pairwise.nil
  | cons e rest ih =>
      refine List.Pairwise.cons ?_ (ih h.2.2)
      intro f member
      have bounds := h.2.2.mem_bounds member
      omega

/-- Every interval of a separated list and the gap after it take two numbers. -/
theorem Separated.length_le {lo hi : Nat} {l : List Extent} (h : Separated lo hi l)
    : lo + 2 * l.length ≤ hi + 1 := by
  induction l generalizing lo with
  | nil => exact h
  | cons e rest ih =>
      have tail := ih h.2.2
      have head := h.1
      have nonempty := h.2.1
      simp only [Extent.stop] at tail
      simp only [List.length_cons]
      omega

/-- A separated list covers at most the numbers between its bounds. -/
theorem Separated.total_le {lo hi : Nat} {l : List Extent} (h : Separated lo hi l)
    : lo + total l ≤ hi + 1 := by
  induction l generalizing lo with
  | nil => exact h
  | cons e rest ih =>
      have tail := ih h.2.2
      have head := h.1
      simp only [Extent.stop] at tail
      simp only [total_cons]
      omega

/-- A separated list that covers everything below `hi` is one interval: two intervals
would leave a gap.
-/
theorem Separated.eq_single {hi : Nat} {l : List Extent} (h : Separated 0 hi l)
    (full : total l = hi) (positive : 0 < hi)
    : l = [⟨0, hi⟩] := by
  cases l with
  | nil => simp at full; omega
  | cons e rest =>
      obtain ⟨_, _, tail⟩ := h
      cases rest with
      | nil =>
          have last : e.stop + 1 ≤ hi + 1 := tail
          simp only [Extent.stop] at last
          simp only [total_cons, total_nil] at full
          have addr : e.addr = 0 := by omega
          have size : e.size = hi := by omega
          rw [← addr, ← size]
      | cons f more =>
          have bound := tail.2.2.total_le
          have gap := tail.1
          simp only [total_cons, Extent.stop] at full bound gap
          omega

-----------------------------------------------------------------------------------------
-- Taking a prefix
-----------------------------------------------------------------------------------------

/-- Nothing is found exactly when every interval is too small. -/
theorem takeFirst_eq_none_iff {n : Nat} {l : List Extent}
    : takeFirst n l = none ↔ ∀ e ∈ l, e.size < n := by
  induction l with
  | nil => simp [takeFirst]
  | cons e rest ih =>
      by_cases small : e.size < n
      · simp [takeFirst, small, ih]
      · by_cases exact_ : e.size = n <;> simp [takeFirst, small, exact_]

/-- The intervals before the first fit are skipped unchanged. -/
theorem takeFirst_append {n : Nat} {before : List Extent} (rest : List Extent)
    (small : ∀ e ∈ before, e.size < n)
    : takeFirst n (before ++ rest)
      = (takeFirst n rest).map (fun found => (found.1, before ++ found.2)) := by
  induction before with
  | nil => simp
  | cons e before ih =>
      have tail := ih (fun f member => small f (by simp [member]))
      simp [takeFirst, small e (by simp), tail, Function.comp_def]

/-- What taking a prefix does to order, size and coverage, by induction on the list. -/
theorem takeFirst_spec {n lo hi : Nat} {l l' : List Extent} {a : Nat}
    (positive : 0 < n) (sep : Separated lo hi l) (found : takeFirst n l = some (a, l'))
    : Separated lo hi l'
      ∧ total l = n + total l'
      ∧ (∀ w, Covers l w ↔ (⟨a, n⟩ : Extent).Holds w ∨ Covers l' w)
      ∧ (∀ w, (⟨a, n⟩ : Extent).Holds w → ¬ Covers l' w) := by
  induction l generalizing lo l' with
  | nil => simp [takeFirst] at found
  | cons e rest ih =>
      obtain ⟨low, nonempty, tail⟩ := sep
      have above {w : Nat} (covered : Covers rest w) : e.stop + 1 ≤ w :=
        (tail.covers_bounds covered).1
      by_cases small : e.size < n
      · simp only [takeFirst, small, if_true, Option.map_eq_some_iff] at found
        obtain ⟨⟨b, rest'⟩, below, pair⟩ := found
        obtain ⟨rfl, rfl⟩ := Prod.mk.inj pair
        obtain ⟨sep', sizes, cover, apart⟩ := ih tail below
        refine ⟨⟨low, nonempty, sep'⟩, by simp only [total_cons]; omega, ?_, ?_⟩
        · intro w
          simp only [covers_cons, cover w]
          exact or_left_comm
        · intro w holds covered
          rcases (covers_cons e rest' w).mp covered with inE | inRest
          · have := above ((cover w).mpr (Or.inl holds))
            simp only [Extent.Holds] at inE
            omega
          · exact apart w holds inRest
      · by_cases exact_ : e.size = n
        · simp only [takeFirst, exact_, if_false, if_true, Option.some.injEq,
            Prod.mk.injEq, Nat.lt_irrefl] at found
          obtain ⟨rfl, rfl⟩ := found
          have same : (⟨e.addr, n⟩ : Extent) = e := by rw [← exact_]
          refine ⟨tail.weaken (by simp only [Extent.stop]; omega), by simp [exact_], ?_, ?_⟩
          · intro w
            simp [same]
          · intro w holds covered
            have := above covered
            simp only [same, Extent.Holds] at holds
            omega
        · simp only [takeFirst, small, exact_, if_false, Option.some.injEq,
            Prod.mk.injEq] at found
          obtain ⟨rfl, rfl⟩ := found
          have stops : e.addr + n + (e.size - n) = e.stop := by
            simp only [Extent.stop]
            omega
          refine ⟨⟨by simp only; omega, by simp only; omega, ?_⟩, ?_, ?_, ?_⟩
          · simpa only [Extent.stop, stops] using tail
          · simp only [total_cons]
            omega
          · intro w
            simp only [covers_cons, Extent.Holds, Extent.stop]
            constructor
            · rintro (inE | covered)
              · by_cases first : w < e.addr + n
                · exact Or.inl ⟨inE.1, first⟩
                · exact Or.inr (Or.inl (by omega))
              · exact Or.inr (Or.inr covered)
            · rintro (front | back | covered)
              · exact Or.inl (by omega)
              · exact Or.inl (by omega)
              · exact Or.inr covered
          · intro w holds covered
            simp only [covers_cons, Extent.Holds, Extent.stop] at holds covered
            rcases covered with back | covered
            · omega
            · have := above covered
              simp only [Extent.stop] at this
              omega

-----------------------------------------------------------------------------------------
-- Putting an interval back
-----------------------------------------------------------------------------------------

theorem join_covers (e : Extent) (l : List Extent) (w : Nat)
    : Covers (join e l) w ↔ e.Holds w ∨ Covers l w := by
  cases l with
  | nil => simp [join]
  | cons f rest =>
      by_cases touch : e.stop = f.addr
      · simp only [join, touch, if_true, covers_cons, ← or_assoc]
        refine or_congr ?_ Iff.rfl
        simp only [Extent.Holds, Extent.stop] at touch ⊢
        omega
      · simp [join, touch]

theorem join_total (e : Extent) (l : List Extent) : total (join e l) = e.size + total l := by
  cases l with
  | nil => simp [join]
  | cons f rest =>
      by_cases touch : e.stop = f.addr
      · simp [join, touch, Nat.add_assoc]
      · simp [join, touch]

/-- Joining keeps separation when `e` ends at or below the rest. -/
theorem join_separated {lo hi : Nat} {e : Extent} {l : List Extent}
    (low : lo ≤ e.addr) (nonempty : 0 < e.size) (sep : Separated e.stop hi l)
    (bound : e.stop ≤ hi)
    : Separated lo hi (join e l) := by
  cases l with
  | nil => exact ⟨low, nonempty, by simp only [Separated]; omega⟩
  | cons f rest =>
      by_cases touch : e.stop = f.addr
      · simp only [join, touch, if_true]
        refine ⟨low, by simp only; omega, ?_⟩
        have tail := sep.2.2
        simp only [Extent.stop] at touch tail ⊢
        simpa only [← touch, Nat.add_assoc] using tail
      · simp only [join, touch, if_false]
        have above := sep.1
        exact ⟨low, nonempty, by omega, sep.2⟩

theorem release_covers (e : Extent) (l : List Extent) (w : Nat)
    : Covers (release e l) w ↔ e.Holds w ∨ Covers l w := by
  induction l with
  | nil => simp [release]
  | cons f rest ih =>
      by_cases before : f.addr < e.addr
      · simp only [release, before, if_true, join_covers, ih, covers_cons]
        exact or_left_comm
      · simp only [release, before, if_false, join_covers]

theorem release_total (e : Extent) (l : List Extent)
    : total (release e l) = e.size + total l := by
  induction l with
  | nil => simp [release]
  | cons f rest ih =>
      by_cases before : f.addr < e.addr
      · simp only [release, before, if_true, join_total, ih, total_cons]
        omega
      · simp only [release, before, if_false, join_total]

/-- Putting back an interval that the list does not touch anywhere inside keeps the list
separated, by induction on the list.
-/
theorem release_separated {lo hi : Nat} {e : Extent} {l : List Extent}
    (sep : Separated lo hi l) (low : lo ≤ e.addr) (nonempty : 0 < e.size)
    (bound : e.stop ≤ hi) (apart : ∀ f ∈ l, e.Apart f)
    : Separated lo hi (release e l) := by
  induction l generalizing lo with
  | nil => exact ⟨low, nonempty, by simp only [Separated]; omega⟩
  | cons f rest ih =>
      obtain ⟨lowF, nonemptyF, tail⟩ := sep
      have apartF := apart f (by simp)
      simp only [Extent.Apart, Extent.stop] at apartF
      by_cases before : f.addr < e.addr
      · simp only [release, before, if_true]
        refine join_separated lowF nonemptyF ?_ ?_
        · exact ih (tail.weaken (by omega)) (by simp only [Extent.stop]; omega)
            (fun g member => apart g (by simp [member]))
        · have := tail.lo_le
          omega
      · simp only [release, before, if_false]
        refine join_separated low nonempty ⟨?_, nonemptyF, tail⟩ bound
        simp only [Extent.stop]
        omega

/-- Joining an interval that the head does not touch only adds it in front. -/
theorem join_of_gap {lo hi : Nat} {e : Extent} {l : List Extent} (sep : Separated lo hi l)
    (gap : e.stop < lo)
    : join e l = e :: l := by
  cases l with
  | nil => rfl
  | cons f rest =>
      have low := sep.1
      simp only [join, show ¬ e.stop = f.addr by omega, if_false]

/-- Joining never moves the start of the first interval. -/
theorem join_cons (e : Extent) (l : List Extent)
    : ∃ size rest, join e l = ⟨e.addr, size⟩ :: rest := by
  cases l with
  | nil => exact ⟨e.size, [], rfl⟩
  | cons f rest =>
      by_cases touch : e.stop = f.addr
      · exact ⟨e.size + f.size, rest, by simp [join, touch]⟩
      · exact ⟨e.size, f :: rest, by simp [join, touch]⟩

/-- Where the intervals from `rest` on start at or after `e`, `e` is put in front of them. -/
theorem release_of_le {e : Extent} {rest : List Extent}
    (above : ∀ f ∈ rest.head?, ¬ f.addr < e.addr)
    : release e rest = join e rest := by
  cases rest with
  | nil => rfl
  | cons f more => simp [release, above f (by simp)]

/-- Putting an interval back touches only the last interval before it and the first one
after it: the intervals further down keep their gap. By induction on those.
-/
theorem release_append {lo hi : Nat} {init rest : List Extent} {z e : Extent}
    (sep : Separated lo hi (init ++ z :: rest)) (nonempty : 0 < e.size) (bound : e.stop ≤ hi)
    (apart : ∀ f ∈ init ++ z :: rest, e.Apart f)
    (below : ∀ f ∈ init ++ [z], f.addr < e.addr)
    (above : ∀ f ∈ rest.head?, ¬ f.addr < e.addr)
    : release e (init ++ z :: rest) = init ++ join z (join e rest) := by
  induction init generalizing lo with
  | nil =>
      simp only [List.nil_append, release, below z (by simp), if_true, release_of_le above]
  | cons f init ih =>
      obtain ⟨low, nonemptyF, tail⟩ := sep
      have inner := ih tail (fun g member => apart g (List.mem_cons_of_mem f member))
        (fun g member => below g (List.mem_cons_of_mem f member))
      have lowE : f.stop + 1 ≤ e.addr := by
        have zLow := (tail.mem_bounds (e := z) (by simp)).1
        have zBelow := below z (by simp)
        omega
      have kept : Separated (f.stop + 1) hi (release e (init ++ z :: rest)) :=
        release_separated tail lowE nonempty bound
          (fun g member => apart g (List.mem_cons_of_mem f member))
      simp only [List.cons_append, release, below f (by simp), if_true]
      rw [join_of_gap kept (by omega), inner]

end Extents
