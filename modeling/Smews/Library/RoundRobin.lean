import Mathlib.Data.List.Nodup

/-! Turns in a ring that is given from its first member on. The member that is served goes to the end, together with
all in front of it; a new member comes last.
-/

namespace RoundRobin

variable {α : Type} {ring front back : List α} {a b : α} {i : Nat}

/-- A member comes before another one. -/
def Ahead (ring : List α) (a b : α) : Prop := [a, b].Sublist ring

/-- Members in front of both do not matter, by induction on them. -/
theorem Ahead.of_append (ahead : Ahead (front ++ back) a b) (other : a ∉ front) : Ahead back a b := by
  induction front with
  | nil => exact ahead
  | cons x front ih =>
      rw [List.mem_cons, not_or] at other
      exact ih (List.Sublist.of_cons_of_ne other.1 ahead) other.2

/-- The ring goes on behind a member; both stay in order when they are behind it. -/
theorem Ahead.behind (ahead : Ahead ring a b) (front : a ∉ ring.take (i + 1)) : Ahead (ring.drop (i + 1)) a b := by
  rw [← List.take_append_drop (i + 1) ring] at ahead
  exact ahead.of_append front

theorem Ahead.append (ahead : Ahead ring a b) (more : List α) : Ahead (ring ++ more) a b :=
  ahead.trans (List.sublist_append_left ring more)

/-- The members in front of a position and the one at it. -/
theorem notMem_take_succ (front : a ∉ ring.take i) (here : ring[i]? ≠ some a) : a ∉ ring.take (i + 1) := by
  rw [List.take_add_one, List.mem_append, not_or]
  refine ⟨front, fun mem => here ?_⟩
  rwa [Option.mem_toList] at mem

/-- A member that is removed, when those in front of it go to the end: with it these are all. -/
theorem perm_moved (here : ring[i]? = some a) : ring.Perm (a :: (ring.drop (i + 1) ++ ring.take i)) := by
  have split : ring = ring.take i ++ a :: ring.drop (i + 1) := by
    conv_lhs => rw [← List.take_append_drop (i + 1) ring, List.take_add_one, here, List.append_assoc]
    rfl
  have moved : (ring.take i ++ a :: ring.drop (i + 1)).Perm (a :: (ring.take i ++ ring.drop (i + 1))) :=
    List.perm_middle
  rw [← split] at moved
  exact moved.trans (List.perm_append_comm.cons a)

theorem notMem_moved (distinct : ring.Nodup) (here : ring[i]? = some a) : a ∉ ring.drop (i + 1) ++ ring.take i :=
  (List.nodup_cons.mp ((perm_moved here).nodup_iff.mp distinct)).1

/-- A member that was served comes last. -/
theorem ahead_of_served (served : ring[i]? = some b) (mem : a ∈ ring) (other : a ≠ b)
    : Ahead (ring.drop (i + 1) ++ ring.take (i + 1)) a b := by
  have rotated : a ∈ ring.drop (i + 1) ++ ring.take i := by
    rw [← List.take_append_drop (i + 1) ring, List.take_add_one, served, List.mem_append, List.mem_append] at mem
    rcases mem with (mem | mem) | mem
    · exact List.mem_append_right _ mem
    · exact absurd (by simpa using mem) other
    · exact List.mem_append_left _ mem
  rw [List.take_add_one, served, ← List.append_assoc]
  exact (List.singleton_sublist.mpr rotated).append (List.Sublist.refl [b])

/-- A member is not served while one before it is not in front of the served one. -/
theorem Ahead.not_served (ahead : Ahead ring a b) (distinct : ring.Nodup) (front : a ∉ ring.take i)
    : ring[i]? ≠ some b := by
  intro served
  have other : a ≠ b := by
    rintro rfl
    exact List.not_nodup_pair a (distinct.sublist ahead)
  have behind := ahead.behind (notMem_take_succ front (by rw [served]; exact fun eq => other (Option.some.inj eq).symm))
  have mem : b ∈ ring.drop (i + 1) := behind.subset (List.mem_cons_of_mem _ (List.mem_singleton_self b))
  have here : b ∈ ring.take (i + 1) := by
    rw [List.take_add_one, served]
    exact List.mem_append_right _ (List.mem_singleton_self b)
  exact List.disjoint_take_drop distinct (Nat.le_refl _) here mem

end RoundRobin
