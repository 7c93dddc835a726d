import Mathlib.Data.Option.Basic

/-! Postconditions of partial computations: what holds of a result, if there is one. Two partial
computations are compared step by step, up to the point where one of them escapes.
-/

namespace Partial

variable {α β : Type} {P Q : α → Prop}

/-- Every result of a partial computation meets a postcondition. -/
def Ensures (r : Option α) (P : α → Prop) : Prop := ∀ x, r = some x → P x

theorem Ensures.none : Ensures (none : Option α) P := fun _ h => nomatch h

theorem Ensures.some {x : α} (h : P x) : Ensures (some x) P := by
  intro y eq
  cases eq
  exact h

theorem Ensures.imp {r : Option α} (h : Ensures r P) (imp : ∀ x, P x → Q x) : Ensures r Q :=
  fun x eq => imp x (h x eq)

theorem Ensures.trivial {r : Option α} : Ensures r fun x => r = Option.some x := fun _ eq => eq

/-- Sequencing: the continuation starts from the postcondition of the first part. -/
theorem Ensures.bind {r : Option α} {f : α → Option β} {R : β → Prop} (h : Ensures r P)
    (next : ∀ x, P x → Ensures (f x) R)
    : Ensures (r >>= f) R := by
  intro y eq
  obtain ⟨x, first, rest⟩ := Option.bind_eq_some_iff.mp eq
  exact next x (h x first) y rest

theorem Ensures.map {r : Option α} {f : α → β} {R : β → Prop} (h : Ensures r fun x => R (f x))
    : Ensures (r.map f) R := by
  intro y eq
  obtain ⟨x, first, rfl⟩ := Option.map_eq_some_iff.mp eq
  exact h x first

theorem Ensures.ite {c : Prop} [Decidable c] {r r' : Option α} (pos : c → Ensures r P)
    (neg : ¬ c → Ensures r' P)
    : Ensures (if c then r else r') P := by
  split
  · exact pos ‹c›
  · exact neg ‹¬ c›

--------------------------------------------------
-- Simulation
--------------------------------------------------

/-- A partial computation follows another one: both are undefined, or their results are related,
or the second one has escaped, and all its results tell so.
-/
inductive Follows (escapes : Prop) (R : α → β → Prop) (escaped : β → Prop)
    : Option α → Option β → Prop
  | undefined : Follows escapes R escaped none none
  | related {a : α} {b : β} (h : R a b) : Follows escapes R escaped (some a) (some b)
  | escaped {r : Option α} {r' : Option β} (possible : escapes) (h : Ensures r' escaped)
    : Follows escapes R escaped r r'

section Follows

variable {γ δ : Type} {escapes : Prop} {R : α → β → Prop} {escaped : β → Prop}
  {R' : γ → δ → Prop} {escaped' : δ → Prop}

/-- Sequencing, where what follows an escape has escaped as well. -/
theorem Follows.bind {r : Option α} {r' : Option β} {f : α → Option γ} {g : β → Option δ}
    (first : Follows escapes R escaped r r')
    (next : ∀ a b, R a b → Follows escapes R' escaped' (f a) (g b))
    (stays : ∀ b, escaped b → Ensures (g b) escaped')
    : Follows escapes R' escaped' (r >>= f) (r' >>= g) := by
  cases first with
  | undefined => exact .undefined
  | @related a b h => exact next a b h
  | escaped possible h => exact .escaped possible (h.bind stays)

/-- The same first step. -/
theorem Follows.bind_same {r : Option α} {f : α → Option γ} {g : α → Option δ}
    (next : ∀ a, r = Option.some a → Follows escapes R' escaped' (f a) (g a))
    : Follows escapes R' escaped' (r >>= f) (r >>= g) := by
  cases r with
  | none => exact .undefined
  | some a => exact next a rfl

theorem Follows.map {r : Option α} {r' : Option β} {f : α → γ} {g : β → δ}
    (first : Follows escapes R escaped r r') (related : ∀ a b, R a b → R' (f a) (g b))
    (stays : ∀ b, escaped b → escaped' (g b))
    : Follows escapes R' escaped' (r.map f) (r'.map g) := by
  cases first with
  | undefined => exact .undefined
  | @related a b h => exact .related (related a b h)
  | escaped possible h => exact .escaped possible (Ensures.map (h.imp stays))

theorem Follows.imp {r : Option α} {r' : Option β} {S : α → β → Prop}
    (first : Follows escapes R escaped r r') (related : ∀ a b, R a b → S a b)
    : Follows escapes S escaped r r' := by
  cases first with
  | undefined => exact .undefined
  | @related a b h => exact .related (related a b h)
  | escaped possible h => exact .escaped possible h

/-- Where nothing escapes, both are undefined or have related results. -/
theorem Follows.of_not_escapes {r : Option α} {r' : Option β}
    (follows : Follows escapes R escaped r r') (never : ¬ escapes)
    : r = none ∧ r' = none ∨ ∃ a b, r = some a ∧ r' = some b ∧ R a b := by
  cases follows with
  | undefined => exact .inl ⟨rfl, rfl⟩
  | @related a b h => exact .inr ⟨a, b, rfl, rfl, h⟩
  | escaped possible _ => exact absurd possible never

end Follows

end Partial
