import Mathlib.Data.List.Cycle

/-! Circular doubly linked lists. The links are two partial functions; a ring is given by the list of its members, from
any one of them on.
-/

namespace CircularList

variable {α : Type} {next prev next' prev' : α → Option α} {l front back : List α} {a b first last : α}

/-- One member is in front of another, by both links. -/
def Joined (next prev : α → Option α) (a b : α) : Prop := next a = some b ∧ prev b = some a

/-- The members of a list form one ring, in its order. -/
structure Ring (next prev : α → Option α) (l : List α) : Prop where
  distinct : l.Nodup
  linked : Cycle.Chain (Joined next prev) (l : Cycle α)

theorem ring_nil : Ring next prev [] := ⟨List.nodup_nil, Cycle.Chain.nil _⟩

theorem ring_singleton (joined : Joined next prev a a) : Ring next prev [a] :=
  ⟨List.nodup_singleton a, (Cycle.chain_singleton _ a).mpr joined⟩

/-- A ring has no distinguished beginning. -/
theorem Ring.rotated (ring : Ring next prev (front ++ back)) : Ring next prev (back ++ front) := by
  refine ⟨List.nodup_append_comm.mp ring.distinct, ?_⟩
  rw [Cycle.coe_eq_coe.mpr List.isRotated_append]
  exact ring.linked

/-- A ring is a chain whose last member is in front of its first one. -/
theorem ring_iff (head : l.head? = some first) (tail : l.getLast? = some last)
    : Ring next prev l ↔ l.Nodup ∧ l.IsChain (Joined next prev) ∧ Joined next prev last first := by
  have nonempty : l ≠ [] := by
    rintro rfl
    cases head
  have closing : Cycle.Chain (Joined next prev) (l : Cycle α)
      ↔ Joined next prev last first ∧ l.IsChain (Joined next prev) := by
    rw [Cycle.chain_ne_nil _ nonempty, List.isChain_cons, head]
    rw [List.getLast?_eq_some_getLast nonempty, Option.some.injEq] at tail
    rw [tail]
    simp
  constructor
  · rintro ⟨distinct, linked⟩
    exact ⟨distinct, (closing.mp linked).2, (closing.mp linked).1⟩
  · rintro ⟨distinct, chain, joined⟩
    exact ⟨distinct, closing.mpr ⟨joined, chain⟩⟩

--------------------------------------------------
-- Neighbours
--------------------------------------------------

/-- The ring from one of its members on. -/
theorem Ring.from_member (ring : Ring next prev l) (mem : a ∈ l)
    : ∃ rest, Ring next prev (a :: rest) ∧ ∀ b, b ∈ a :: rest ↔ b ∈ l := by
  obtain ⟨front, back, rfl⟩ := List.append_of_mem mem
  refine ⟨back ++ front, ring.rotated, fun b => ?_⟩
  simp only [List.mem_cons, List.mem_append]
  tauto

theorem Ring.successor (ring : Ring next prev l) (mem : a ∈ l) : ∃ b ∈ l, Joined next prev a b := by
  obtain ⟨rest, ring', same⟩ := ring.from_member mem
  have linked := ring'.linked
  rw [Cycle.chain_coe_cons] at linked
  cases rest with
  | nil => exact ⟨a, mem, List.isChain_pair.mp linked⟩
  | cons b rest =>
      exact ⟨b, (same b).mp (List.mem_cons_of_mem _ List.mem_cons_self), (List.isChain_cons_cons.mp linked).1⟩

theorem Ring.predecessor (ring : Ring next prev l) (mem : b ∈ l) : ∃ a ∈ l, Joined next prev a b := by
  obtain ⟨rest, ring', same⟩ := ring.from_member mem
  cases tail : rest.getLast? with
  | none =>
      rw [List.getLast?_eq_none_iff] at tail
      subst tail
      exact ⟨b, mem, (Cycle.chain_singleton _ b).mp ring'.linked⟩
  | some a =>
      have tail' : (b :: rest).getLast? = some a := by rw [List.getLast?_cons, tail, Option.getD_some]
      exact ⟨a, (same a).mp (List.mem_cons_of_mem _ (List.mem_of_getLast? tail)), ((ring_iff rfl tail').mp ring').2.2⟩

/-- The links of the members are inverse to each other. -/
theorem Ring.next_iff (ring : Ring next prev l) (mem_a : a ∈ l) (mem_b : b ∈ l) : next a = some b ↔ prev b = some a := by
  constructor
  · intro forth
    obtain ⟨c, _, joined⟩ := ring.successor mem_a
    cases joined.1.symm.trans forth
    exact joined.2
  · intro back
    obtain ⟨c, _, joined⟩ := ring.predecessor mem_b
    cases joined.2.symm.trans back
    exact joined.1

/-- The links of one member follow from those of the others. -/
theorem Ring.determined {l' : List α} (ring : Ring next prev l) (ring' : Ring next' prev' l') (mem : a ∈ l)
    (same : ∀ b, b ∈ l' ↔ b ∈ l) (next_kept : ∀ b, b ≠ a → next' b = next b)
    (prev_kept : ∀ b, b ≠ a → prev' b = prev b)
    : next' a = next a ∧ prev' a = prev a := by
  have mem' := (same a).mpr mem
  constructor
  · obtain ⟨b, mem_b, joined⟩ := ring.successor mem
    rw [joined.1]
    by_cases own : b = a
    · -- a ring of one member: another one would be in front of itself
      subst own
      obtain ⟨c, mem_c, joined'⟩ := ring'.successor mem'
      by_cases alone : c = b
      · rw [← alone] at joined' ⊢
        exact joined'.1
      · obtain ⟨d, -, before⟩ := ring.predecessor ((same c).mp mem_c)
        cases joined'.2.symm.trans ((prev_kept c alone).trans before.2)
        exact absurd (Option.some.inj (before.1.symm.trans joined.1)) alone
    · exact (ring'.next_iff mem' ((same b).mpr mem_b)).mpr ((prev_kept b own).trans joined.2)
  · obtain ⟨b, mem_b, joined⟩ := ring.predecessor mem
    rw [joined.2]
    by_cases own : b = a
    · subst own
      obtain ⟨c, mem_c, joined'⟩ := ring'.predecessor mem'
      by_cases alone : c = b
      · rw [← alone] at joined' ⊢
        exact joined'.2
      · obtain ⟨d, -, after⟩ := ring.successor ((same c).mp mem_c)
        cases joined'.1.symm.trans ((next_kept c alone).trans after.1)
        exact absurd (Option.some.inj (after.2.symm.trans joined.2)) alone
    · exact (ring'.next_iff ((same b).mpr mem_b) mem').mp ((next_kept b own).trans joined.1)

--------------------------------------------------
-- Changes
--------------------------------------------------

/-- A chain does not depend on what is behind its last member and in front of its first one. -/
theorem isChain_inside {r r' : α → α → Prop} (distinct : l.Nodup) (head : l.head? = some first)
    (tail : l.getLast? = some last) (chain : l.IsChain r)
    (imp : ∀ a ∈ l, ∀ b ∈ l, a ≠ last → b ≠ first → r a b → r' a b)
    : l.IsChain r' := by
  rw [List.isChain_iff_getElem] at chain ⊢
  intro i inside
  refine imp _ (List.getElem_mem _) _ (List.getElem_mem _) ?_ ?_ (chain i inside)
  · intro own
    rw [List.getLast?_eq_getElem?, List.getElem?_eq_some_iff] at tail
    obtain ⟨_, at_last⟩ := tail
    have := (List.Nodup.getElem_inj_iff distinct).mp (own.trans at_last.symm)
    omega
  · intro own
    rw [List.head?_eq_getElem?, List.getElem?_eq_some_iff] at head
    obtain ⟨_, at_first⟩ := head
    have := (List.Nodup.getElem_inj_iff distinct).mp (own.trans at_first.symm)
    omega

/-- The ring with a new member between its last and its first one. -/
theorem Ring.insert (ring : Ring next prev l) (head : l.head? = some first) (tail : l.getLast? = some last)
    (fresh : a ∉ l) (behind : Joined next' prev' last a) (before : Joined next' prev' a first)
    (next_kept : ∀ b ∈ l, b ≠ last → next' b = next b) (prev_kept : ∀ b ∈ l, b ≠ first → prev' b = prev b)
    : Ring next' prev' (l ++ [a]) := by
  obtain ⟨distinct, chain, -⟩ := (ring_iff head tail).mp ring
  have head' : (l ++ [a]).head? = some first := by rw [List.head?_append, head, Option.some_or]
  have tail' : (l ++ [a]).getLast? = some a := by simp
  refine (ring_iff head' tail').mpr ⟨?_, ?_, before⟩
  · refine List.nodup_append.mpr ⟨distinct, List.nodup_singleton a, fun b mem c own eq => fresh ?_⟩
    rwa [eq, List.mem_singleton.mp own] at mem
  · refine List.isChain_append.mpr ⟨?_, List.isChain_singleton a, ?_⟩
    · refine isChain_inside distinct head tail chain fun b mem c mem' not_last not_first joined => ?_
      exact ⟨(next_kept b mem not_last).trans joined.1, (prev_kept c mem' not_first).trans joined.2⟩
    · intro b at_last c at_first
      rw [tail, Option.mem_some_iff] at at_last
      rw [List.head?_cons, Option.mem_some_iff] at at_first
      rwa [← at_last, ← at_first]

/-- The ring without its first member, when others are left. -/
theorem Ring.remove (ring : Ring next prev (a :: l)) (head : l.head? = some first) (tail : l.getLast? = some last)
    (joined : Joined next' prev' last first) (next_kept : ∀ b ∈ l, b ≠ last → next' b = next b)
    (prev_kept : ∀ b ∈ l, b ≠ first → prev' b = prev b)
    : Ring next' prev' l := by
  have distinct := (List.nodup_cons.mp ring.distinct).2
  have linked := ring.linked
  rw [Cycle.chain_coe_cons] at linked
  refine (ring_iff head tail).mpr ⟨distinct, ?_, joined⟩
  refine isChain_inside distinct head tail linked.tail.left_of_append fun b mem c mem' not_last not_first joined => ?_
  exact ⟨(next_kept b mem not_last).trans joined.1, (prev_kept c mem' not_first).trans joined.2⟩

/-- The neighbours of the first member, when others are left. -/
theorem Ring.around (ring : Ring next prev (a :: l)) (head : l.head? = some first) (tail : l.getLast? = some last)
    : next a = some first ∧ prev a = some last := by
  have tail' : (a :: l).getLast? = some last := by rw [List.getLast?_cons, tail, Option.getD_some]
  obtain ⟨-, chain, closing⟩ := (ring_iff rfl tail').mp ring
  exact ⟨((List.isChain_cons.mp chain).1 first head).1, closing.2⟩

/-- Links that are the same on the members. -/
theorem Ring.congr (ring : Ring next prev l) (next_kept : ∀ b ∈ l, next' b = next b)
    (prev_kept : ∀ b ∈ l, prev' b = prev b)
    : Ring next' prev' l := by
  cases head : l.head? with
  | none =>
      rw [List.head?_eq_none_iff.mp head]
      exact ring_nil
  | some first =>
      obtain ⟨last, tail⟩ : ∃ last, l.getLast? = some last :=
        ⟨_, List.getLast?_eq_some_getLast (by rintro rfl; cases head)⟩
      obtain ⟨distinct, chain, closing⟩ := (ring_iff head tail).mp ring
      refine (ring_iff head tail).mpr ⟨distinct, ?_, ?_⟩
      · refine isChain_inside distinct head tail chain fun b mem c mem' _ _ joined => ?_
        exact ⟨(next_kept b mem).trans joined.1, (prev_kept c mem').trans joined.2⟩
      · exact ⟨(next_kept last (List.mem_of_getLast? tail)).trans closing.1,
          (prev_kept first (List.mem_of_head? head)).trans closing.2⟩

end CircularList
