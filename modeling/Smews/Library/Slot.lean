import Mathlib.Data.List.Basic

/-! A slot that holds one letter: a letter that is put into it replaces the one that is there, and the one that is there
when the slot is emptied is delivered.
-/

namespace Slot

variable {α : Type}

/-- The calls that a slot sees. -/
inductive Call (α : Type)
  | put (letter : α)
  | clear
  | take
  | other

/-- The letter that a call puts. -/
def Call.letter? : Call α → Option α
  | .put letter => some letter
  | .clear | .take | .other => none

structure State (α : Type) where
  letter : Option α
  delivered : List α

def step (s : State α) : Call α → State α
  | .put letter => { s with letter := some letter }
  | .clear => { s with letter := none }
  | .take => ⟨none, s.delivered ++ s.letter.toList⟩
  | .other => s

/-- Whether the next call that does something to the slot takes the letter. -/
def takenNext : List (Call α) → Bool
  | [] => false
  | .other :: calls => takenNext calls
  | .take :: _ => true
  | .put _ :: _ | .clear :: _ => false

/-- The letters that are delivered: those that are taken before another one is put into the slot. -/
def deliveries : List (Call α) → List α
  | [] => []
  | .put letter :: calls => if takenNext calls then letter :: deliveries calls else deliveries calls
  | .clear :: calls | .take :: calls | .other :: calls => deliveries calls

/-- The deliveries of a slot, by induction on the calls for any letter in it. -/
theorem delivered_foldl (calls : List (Call α)) (s : State α)
    : (calls.foldl step s).delivered
      = s.delivered ++ (if takenNext calls then s.letter.toList else []) ++ deliveries calls := by
  induction calls generalizing s with
  | nil => simp [takenNext, deliveries]
  | cons call calls ih =>
      rw [List.foldl_cons, ih]
      cases call with
      | put letter => by_cases next : takenNext calls <;> simp [step, takenNext, deliveries, next]
      | clear => simp [step, takenNext, deliveries]
      | take => simp [step, takenNext, deliveries]
      | other => rfl

/-- Every letter is delivered once at most, in the order in which they were put, by induction on the calls. -/
theorem deliveries_sublist (calls : List (Call α)) : (deliveries calls).Sublist (calls.filterMap Call.letter?) := by
  induction calls with
  | nil => exact .slnil
  | cons call calls ih =>
      cases call with
      | put letter =>
          show (deliveries (.put letter :: calls)).Sublist (letter :: calls.filterMap Call.letter?)
          rw [deliveries]
          split
          · exact ih.cons_cons letter
          · exact ih.cons letter
      | clear | take | other => exact ih

end Slot
