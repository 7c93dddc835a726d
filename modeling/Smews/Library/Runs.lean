import Mathlib.Data.List.Basic

/-! Finite runs of a labelled transition relation, and the induction that carries an
invariant along a run.
-/

namespace Runs

variable {σ ε : Type}

/-- From `s`, performing the events of the list in order leads to `s'`. -/
inductive Run (step : σ → ε → σ → Prop) : σ → List ε → σ → Prop
  | nil (s : σ) : Run step s [] s
  | cons {s mid s' : σ} {event : ε} {events : List ε}
    (first : step s event mid) (rest : Run step mid events s')
    : Run step s (event :: events) s'

/-- Runs are composed, by induction on the first one. -/
theorem Run.append {step : σ → ε → σ → Prop} {s mid s' : σ} {events events' : List ε}
    (first : Run step s events mid) (second : Run step mid events' s')
    : Run step s (events ++ events') s' := by
  induction first with
  | nil _ => exact second
  | cons step _ ih => exact .cons step (ih second)

/-- An invariant preserved by every step holds after every run, by induction on the run. -/
theorem Run.invariant {step : σ → ε → σ → Prop} (Inv : σ → Prop)
    (preserved : ∀ {s event s'}, Inv s → step s event s' → Inv s')
    {s s' : σ} {events : List ε} (run : Run step s events s') (start : Inv s)
    : Inv s' := by
  induction run with
  | nil _ => exact start
  | cons first _ ih => exact ih (preserved start first)

/-- An invariant that also speaks about the events so far, by induction on the run for any past
before it.
-/
theorem Run.invariant_history {step : σ → ε → σ → Prop} (Inv : List ε → σ → Prop)
    (preserved : ∀ {past s event s'}, Inv past s → step s event s' → Inv (past ++ [event]) s')
    {s s' : σ} {events : List ε} (run : Run step s events s') (start : Inv [] s)
    : Inv events s' := by
  have extended (past : List ε) (before : Inv past s) : Inv (past ++ events) s' := by
    clear start
    induction run generalizing past with
    | nil _ =>
        rw [List.append_nil]
        exact before
    | @cons _ _ _ event events first _ ih =>
        have after := ih (past ++ [event]) (preserved before first)
        rwa [List.append_assoc, List.singleton_append] at after
  exact extended [] start

/-- A run seen from outside is a run of another relation, as long as an invariant holds, by induction on the run. -/
theorem Run.simulates {τ : Type} {step : σ → ε → σ → Prop} {step' : τ → ε → τ → Prop} (view : σ → τ) (Inv : σ → Prop)
    (simulated : ∀ {s event s'}, Inv s → step s event s' → step' (view s) event (view s') ∧ Inv s')
    {s s' : σ} {events : List ε} (run : Run step s events s') (start : Inv s)
    : Run step' (view s) events (view s') := by
  induction run with
  | nil s => exact .nil (view s)
  | cons first _ ih =>
      obtain ⟨step, inv⟩ := simulated start first
      exact .cons step (ih inv)

/-- A run with a note on each of its steps, by induction on the run. -/
theorem Run.annotate {τ : Type} {step : σ → ε → σ → Prop} (note : σ → ε → τ) {s s' : σ} {events : List ε}
    (run : Run step s events s')
    : ∃ history : List (ε × τ), history.map Prod.fst = events
      ∧ Run (fun s entry s' => step s entry.1 s' ∧ entry.2 = note s entry.1) s history s' := by
  induction run with
  | nil s => exact ⟨[], rfl, .nil s⟩
  | @cons s _ _ event events first _ ih =>
      obtain ⟨history, same, run⟩ := ih
      exact ⟨(event, note s event) :: history, by rw [List.map_cons, same], .cons ⟨first, rfl⟩ run⟩

/-- Steps that imply others, by induction on the run. -/
theorem Run.mono {step step' : σ → ε → σ → Prop}
    (imp : ∀ {s event s'}, step s event s' → step' s event s')
    {s s' : σ} {events : List ε} (run : Run step s events s')
    : Run step' s events s' := by
  induction run with
  | nil s => exact .nil s
  | cons first _ ih => exact .cons (imp first) ih

/-- A run has a step of a kind, or none, by induction on the run. -/
theorem Run.find {step : σ → ε → σ → Prop} (kind : σ → ε → Prop) {s s' : σ} {events : List ε}
    (run : Run step s events s')
    : (∃ before event after mid mid', events = before ++ event :: after ∧ Run step s before mid ∧ kind mid event
        ∧ step mid event mid' ∧ Run step mid' after s')
      ∨ Run (fun s event s' => step s event s' ∧ ¬ kind s event) s events s' := by
  induction run with
  | nil s => exact .inr (.nil s)
  | @cons s mid s' event events first rest ih =>
      by_cases here : kind s event
      · exact .inl ⟨[], event, events, s, mid, rfl, .nil s, here, first, rest⟩
      · rcases ih with ⟨before, event', after, mid', mid'', rfl, run, there, step', rest'⟩ | none
        · exact .inl ⟨event :: before, event', after, mid', mid'', rfl, .cons first run, there, step', rest'⟩
        · exact .inr (.cons ⟨first, here⟩ none)

/-- A step function run on the events of a list, as long as a condition holds before each. -/
def runChecked (next : σ → ε → Option σ) (guard : σ → ε → Prop) [∀ s e, Decidable (guard s e)]
    : List ε → σ → Option σ
  | [], s => some s
  | event :: events, s =>
      if guard s event then (next s event).bind (runChecked next guard events) else none

/-- A checked execution is a run of guarded steps, by induction on the events. -/
theorem Run.of_checked {next : σ → ε → Option σ} {guard : σ → ε → Prop}
    [∀ s e, Decidable (guard s e)] {events : List ε} {s s' : σ}
    (checked : runChecked next guard events s = some s')
    : Run (fun s event s' => next s event = some s' ∧ guard s event) s events s' := by
  induction events generalizing s with
  | nil =>
      simp only [runChecked, Option.some.injEq] at checked
      subst checked
      exact .nil s
  | cons event events ih =>
      simp only [runChecked, Option.ite_none_right_eq_some, Option.bind_eq_some_iff] at checked
      obtain ⟨guarded, mid, first, rest⟩ := checked
      exact .cons ⟨first, guarded⟩ (ih rest)

end Runs
