import Mathlib.Data.List.Forall2
import Mathlib.Data.UInt
import Mathlib.Tactic.Ring
import Smews.Library.Runs

/-! The timers of `timers.c`. A timer catches up with the clock by periods, but the elapsed time is compared
in 16 bits.
-/

namespace Smews.Core

open Runs

/-- `struct timer_t`. -/
structure Timer where
  callback : Nat
  periodMillis : UInt16
  lastTimeMillis : UInt32
deriving DecidableEq, Repr

/-- The timer that `set_timer` prepends to the list, when `mem_alloc` succeeds. -/
def setTimer (callback : Nat) (periodMillis : UInt16) (timeMillis : UInt32) : Timer :=
  { callback, periodMillis, lastTimeMillis := timeMillis }

/-- The inner loop of `smews_timers`: the timer, and how often its callback ran. -/
def catchUp (currTimeMillis : UInt32) : Nat → Timer → Option (Timer × Nat)
  | 0, _ => none
  | fuel + 1, timer =>
      if timer.periodMillis < (currTimeMillis - timer.lastTimeMillis).toUInt16 then
        (catchUp currTimeMillis fuel
          { timer with lastTimeMillis := timer.lastTimeMillis + timer.periodMillis.toUInt32 }).map
            fun (timer, runs) => (timer, runs + 1)
      else
        some (timer, 0)

/-- `smews_timers`. Each turn of the inner loop takes at least one from a 16-bit number. -/
def smewsTimers (currTimeMillis : UInt32) (allTimers : List Timer) : Option (List (Timer × Nat)) :=
  allTimers.mapM (catchUp currTimeMillis 65536)

--------------------------------------------------
-- The inner loop
--------------------------------------------------

/-- A timer whose last period ended at a moment that the clock has reached. -/
structure EndedAt (timer : Timer) (now last : Nat) : Prop where
  ends : timer.lastTimeMillis = UInt32.ofNat last
  reached : last ≤ now
  recent : now - last < 0x100000000

theorem EndedAt.elapsed {timer : Timer} {now last : Nat} (ended : EndedAt timer now last)
    : (UInt32.ofNat now - timer.lastTimeMillis).toNat = now - last := by
  obtain ⟨eq, reached, recent⟩ := ended
  rw [eq, UInt32.toNat_sub, UInt32.toNat_ofNat', UInt32.toNat_ofNat']
  simp only [Nat.reducePow]
  omega

theorem EndedAt.elapsed16 {timer : Timer} {now last : Nat} (ended : EndedAt timer now last)
    : (UInt32.ofNat now - timer.lastTimeMillis).toUInt16.toNat = (now - last) % 65536 := by
  rw [UInt32.toNat_toUInt16, ended.elapsed]

/-- The end of the next period, when the loop sees one. -/
theorem EndedAt.next {timer : Timer} {now last : Nat} (ended : EndedAt timer now last)
    (period : timer.periodMillis.toNat ≤ now - last)
    : EndedAt { timer with lastTimeMillis := timer.lastTimeMillis + timer.periodMillis.toUInt32 } now
        (last + timer.periodMillis.toNat) := by
  obtain ⟨eq, reached, recent⟩ := ended
  refine ⟨?_, by omega, by omega⟩
  rw [← UInt32.toNat_inj, eq, UInt32.toNat_add, UInt32.toNat_ofNat', UInt32.toNat_ofNat',
    UInt16.toNat_toUInt32]
  simp only [Nat.reducePow]
  omega

/-- The loop ends, by induction on the number of turns: what it sees of the elapsed time falls to at most one
period, and what it does not see stays.
-/
theorem catchUp_ends {fuel : Nat} {timer : Timer} {now last : Nat} (positive : 0 < timer.periodMillis.toNat)
    (ended : EndedAt timer now last) (enough : (now - last) % 65536 < fuel)
    : ∃ timer' runs, catchUp (UInt32.ofNat now) fuel timer = some (timer', runs)
      ∧ timer'.callback = timer.callback ∧ timer'.periodMillis = timer.periodMillis
      ∧ EndedAt timer' now (last + runs * timer.periodMillis.toNat)
      ∧ (now - (last + runs * timer.periodMillis.toNat)) % 65536 ≤ timer.periodMillis.toNat
      ∧ (now - (last + runs * timer.periodMillis.toNat)) / 65536 = (now - last) / 65536 := by
  induction fuel generalizing timer last with
  | zero => exact absurd enough (Nat.not_lt_zero _)
  | succ fuel ih =>
      rw [catchUp]
      by_cases late : timer.periodMillis < (UInt32.ofNat now - timer.lastTimeMillis).toUInt16
      · rw [if_pos late]
        rw [UInt16.lt_iff_toNat_lt, ended.elapsed16] at late
        have le := Nat.mod_le (now - last) 65536
        have next := ended.next (by omega)
        obtain ⟨timer', runs, caught, callback, period, ended', small, high⟩ :=
          ih (by exact positive) next (by omega)
        have moved : last + timer.periodMillis.toNat + runs * timer.periodMillis.toNat
            = last + (runs + 1) * timer.periodMillis.toNat := by ring
        rw [moved] at ended' small high
        refine ⟨timer', runs + 1, by rw [caught]; rfl, callback, period, ended', small, ?_⟩
        rw [high]
        omega
      · rw [if_neg late]
        rw [UInt16.lt_iff_toNat_lt, ended.elapsed16] at late
        refine ⟨timer, 0, rfl, rfl, rfl, ?_⟩
        rw [Nat.zero_mul, Nat.add_zero]
        exact ⟨ended, by omega, rfl⟩

/-- A timer that caught up is on time when the whole elapsed time fits 16 bits, and only then. -/
theorem catchUp_on_time {timer : Timer} {now last : Nat} (positive : 0 < timer.periodMillis.toNat)
    (ended : EndedAt timer now last)
    : ∃ timer' runs, catchUp (UInt32.ofNat now) 65536 timer = some (timer', runs)
      ∧ timer'.callback = timer.callback ∧ timer'.periodMillis = timer.periodMillis
      ∧ EndedAt timer' now (last + runs * timer.periodMillis.toNat)
      ∧ (now - (last + runs * timer.periodMillis.toNat) ≤ timer.periodMillis.toNat
        ↔ now - last < 65536) := by
  obtain ⟨timer', runs, caught, callback, period, ended', small, high⟩ :=
    catchUp_ends positive ended (Nat.mod_lt _ (by decide : 0 < 65536))
  have fits := timer.periodMillis.toNat_lt
  exact ⟨timer', runs, caught, callback, period, ended', by omega⟩

--------------------------------------------------
-- Runs
--------------------------------------------------

/-- A timer with its history: the moment when it was set, and how often its callback ran since. -/
structure Watched where
  timer : Timer
  start : Nat
  runs : Nat
deriving DecidableEq, Repr

/-- When the last period of a timer that was counted ended. -/
def Watched.last (x : Watched) : Nat := x.start + x.runs * x.timer.periodMillis.toNat

/-- The list of timers, the moment of the last reading of the clock, and the one of the last call of
`smews_timers`. Moments are milliseconds that never wrap; `TIME_MILLIS` gives them modulo 2^32.
-/
structure Clocked where
  timers : List Watched
  now : Nat
  called : Nat
deriving DecidableEq, Repr

/-- A timer is set, or `smews_timers` is called. -/
inductive TimerEvent
  | set (callback : Nat) (periodMillis : UInt16) (time : Nat)
  | call (time : Nat)

/-- The timers after a call of `smews_timers`, with their callbacks counted. -/
def callTimers (time : Nat) (s : Clocked) : Option Clocked :=
  (smewsTimers (UInt32.ofNat time) (s.timers.map Watched.timer)).map fun timers =>
    {
      timers := s.timers.zipWith (fun x (timer, runs) => { x with timer, runs := x.runs + runs }) timers
      now := time
      called := time
    }

/-- The clock does not go back, periods are positive, and less than 2^31 ms pass between two calls. -/
inductive TimerStep : Clocked → TimerEvent → Clocked → Prop
  | set {s : Clocked} {callback : Nat} {periodMillis : UInt16} {time : Nat} (later : s.now ≤ time)
    (positive : 0 < periodMillis.toNat)
    : TimerStep s (.set callback periodMillis time)
        { s with
          timers := ⟨setTimer callback periodMillis (UInt32.ofNat time), time, 0⟩ :: s.timers
          now := time
        }
  | call {s s' : Clocked} {time : Nat} (later : s.now ≤ time) (gap : time - s.called < 0x80000000)
    (returned : callTimers time s = some s')
    : TimerStep s (.call time) s'

/-- Every timer has counted its periods since it was set, and at most one has passed since the last one. -/
def OnTime (s : Clocked) : Prop :=
  ∀ x ∈ s.timers, x.timer.lastTimeMillis = UInt32.ofNat x.last ∧ x.last ≤ s.now
    ∧ s.now - x.last ≤ x.timer.periodMillis.toNat

/-- When `smews_timers` is called, less than 2^16 ms have passed since the last period of every timer. -/
def InTime (s : Clocked) : TimerEvent → Prop
  | .set _ _ _ => True
  | .call time => ∀ x ∈ s.timers, (UInt32.ofNat time - x.timer.lastTimeMillis).toNat < 65536

/-- What holds of a timer between two calls. -/
structure Counted (s : Clocked) (x : Watched) : Prop where
  positive : 0 < x.timer.periodMillis.toNat
  ends : x.timer.lastTimeMillis = UInt32.ofNat x.last
  reached : x.last ≤ s.now
  recent : s.called < x.last + 65536

/-- The timers of a run whose calls came in time. -/
structure InPace (s : Clocked) : Prop where
  called : s.called ≤ s.now
  counted : ∀ x ∈ s.timers, Counted s x

/-- What a call does to a timer. -/
structure Caught (now : Nat) (x y : Watched) : Prop where
  period : y.timer.periodMillis = x.timer.periodMillis
  ended : EndedAt y.timer now y.last
  on_time : now - y.last ≤ y.timer.periodMillis.toNat ↔ now - x.last < 65536

/-- Every timer of the list catches up, by induction on the list. -/
theorem smewsTimers_caught {now : Nat} {xs : List Watched}
    (before : ∀ x ∈ xs, 0 < x.timer.periodMillis.toNat ∧ EndedAt x.timer now x.last)
    : ∃ ys, smewsTimers (UInt32.ofNat now) (xs.map Watched.timer) = some ys
      ∧ List.Forall₂ (Caught now) xs
        (xs.zipWith (fun x (timer, runs) => { x with timer, runs := x.runs + runs }) ys) := by
  induction xs with
  | nil => exact ⟨[], rfl, .nil⟩
  | cons x xs ih =>
      obtain ⟨positive, ended⟩ := before x List.mem_cons_self
      obtain ⟨ys, caught, all⟩ := ih fun y mem => before y (List.mem_cons_of_mem x mem)
      obtain ⟨timer, runs, here, callback, period, ended', on_time⟩ := catchUp_on_time positive ended
      have moved : x.start + x.runs * x.timer.periodMillis.toNat + runs * x.timer.periodMillis.toNat
          = x.start + (x.runs + runs) * x.timer.periodMillis.toNat := by ring
      refine ⟨(timer, runs) :: ys, ?_, .cons ⟨period, ?_, ?_⟩ all⟩
      · rw [smewsTimers] at caught ⊢
        rw [List.map_cons, List.mapM_cons, here, caught]
        rfl
      · rw [Watched.last, moved] at ended'
        rw [Watched.last]
        dsimp only
        rwa [period]
      · rw [Watched.last, moved] at on_time
        rw [Watched.last]
        dsimp only
        rwa [period]

theorem InPace.ended {s : Clocked} (pace : InPace s) {time : Nat} (later : s.now ≤ time)
    (gap : time - s.called < 0x80000000) {x : Watched} (mem : x ∈ s.timers)
    : 0 < x.timer.periodMillis.toNat ∧ EndedAt x.timer time x.last := by
  obtain ⟨positive, ends, reached, recent⟩ := pace.counted x mem
  have called := pace.called
  exact ⟨positive, ends, by omega, by omega⟩

/-- A call returns, and leaves the timers on time when it came in time, and only then. -/
theorem InPace.call {s : Clocked} (pace : InPace s) {time : Nat} (later : s.now ≤ time)
    (gap : time - s.called < 0x80000000)
    : ∃ s', callTimers time s = some s' ∧ s'.now = time ∧ s'.called = time
      ∧ List.Forall₂ (Caught time) s.timers s'.timers := by
  obtain ⟨ys, caught, all⟩ := smewsTimers_caught fun x mem => pace.ended later gap mem
  exact ⟨_, by rw [callTimers, caught]; rfl, rfl, rfl, all⟩

/-- What a call that came in time sees of the elapsed time. -/
theorem InPace.in_time {s : Clocked} (pace : InPace s) {time : Nat} (later : s.now ≤ time)
    (gap : time - s.called < 0x80000000)
    : InTime s (.call time) ↔ ∀ x ∈ s.timers, time - x.last < 65536 := by
  constructor
  · intro inTime x mem
    rw [← (pace.ended later gap mem).2.elapsed]
    exact inTime x mem
  · intro inTime x mem
    rw [(pace.ended later gap mem).2.elapsed]
    exact inTime x mem

/-- What happens to every timer of a list happens to each of the other list, by induction on the lists. -/
theorem caught_on_time {now : Nat} {xs ys : List Watched} (all : List.Forall₂ (Caught now) xs ys)
    : (∀ y ∈ ys, y.timer.lastTimeMillis = UInt32.ofNat y.last ∧ y.last ≤ now
        ∧ now - y.last ≤ y.timer.periodMillis.toNat)
      ↔ ∀ x ∈ xs, now - x.last < 65536 := by
  induction all with
  | nil => exact ⟨fun _ _ mem => (List.not_mem_nil mem).elim, fun _ _ mem => (List.not_mem_nil mem).elim⟩
  | cons here _ ih =>
      rw [List.forall_mem_cons, List.forall_mem_cons, ih, ← here.on_time]
      have ended := here.ended
      exact and_congr_left fun _ => ⟨fun onTime => onTime.2.2, fun onTime => ⟨ended.ends, ended.reached, onTime⟩⟩

/-- Setting a timer keeps the pace. -/
theorem InPace.set {s : Clocked} (pace : InPace s) {callback : Nat} {periodMillis : UInt16} {time : Nat}
    (later : s.now ≤ time) (positive : 0 < periodMillis.toNat)
    : InPace { s with
        timers := ⟨setTimer callback periodMillis (UInt32.ofNat time), time, 0⟩ :: s.timers
        now := time
      } := by
  have called := pace.called
  refine ⟨by show s.called ≤ time; omega, ?_⟩
  intro x mem
  rcases List.mem_cons.mp mem with rfl | mem
  · exact ⟨positive, by simp [setTimer, Watched.last], by simp [Watched.last],
      by simp only [Watched.last, Nat.zero_mul]; omega⟩
  · obtain ⟨positive, ends, reached, recent⟩ := pace.counted x mem
    exact ⟨positive, ends, by show x.last ≤ time; omega, recent⟩

/-- A list of timers that caught up, each from a timer of the other list, by induction on the lists. -/
theorem caught_each {now : Nat} {xs ys : List Watched} (all : List.Forall₂ (Caught now) xs ys)
    {y : Watched} (mem : y ∈ ys)
    : ∃ x ∈ xs, Caught now x y := by
  induction all with
  | nil => exact (List.not_mem_nil mem).elim
  | cons here _ ih =>
      rcases List.mem_cons.mp mem with rfl | mem
      · exact ⟨_, List.mem_cons_self, here⟩
      · obtain ⟨x, before, caught⟩ := ih mem
        exact ⟨x, List.mem_cons_of_mem _ before, caught⟩

/-- A step whose call comes in time keeps the pace. -/
theorem InPace.step {s s' : Clocked} {event : TimerEvent} (pace : InPace s) (step : TimerStep s event s')
    (inTime : InTime s event)
    : InPace s' := by
  cases step with
  | set later positive => exact pace.set later positive
  | @call _ time later gap returned =>
      obtain ⟨next, called, now_eq, called_eq, all⟩ := pace.call later gap
      rw [called] at returned
      obtain rfl := Option.some.inj returned
      rw [pace.in_time later gap] at inTime
      refine ⟨by rw [now_eq, called_eq], ?_⟩
      intro y mem
      obtain ⟨x, before, caught⟩ := caught_each all mem
      have positive := (pace.counted x before).positive
      have onTime := caught.on_time.mpr (inTime x before)
      have fits := y.timer.periodMillis.toNat_lt
      have reached := caught.ended.reached
      exact ⟨by rw [caught.period]; exact positive, caught.ended.ends, by rw [now_eq]; exact reached,
        by rw [called_eq]; omega⟩

/-- As long as every call came in time, a call returns and leaves every timer on time when it comes in time
itself, and only then.
-/
theorem timers_on_time {start s : Clocked} {events : List TimerEvent} (empty : start.timers = [])
    (begins : start.called ≤ start.now)
    (run : Run (fun s event s' => TimerStep s event s' ∧ InTime s event) start events s)
    {time : Nat} (later : s.now ≤ time) (gap : time - s.called < 0x80000000)
    : ∃ s', callTimers time s = some s' ∧ (OnTime s' ↔ InTime s (.call time)) := by
  have starts : InPace start := ⟨begins, by rw [empty]; exact fun _ mem => (List.not_mem_nil mem).elim⟩
  have pace : InPace s := run.invariant InPace (fun pace step => pace.step step.1 step.2) starts
  obtain ⟨s', called, now_eq, _, all⟩ := pace.call later gap
  refine ⟨s', called, ?_⟩
  rw [pace.in_time later gap, ← caught_on_time all, OnTime, now_eq]

/-- A timer of one second, set just before the clock wraps and called after it. -/
theorem timers_on_time_wrapping
    : ∃ s', callTimers 0x100000800
          ⟨[⟨⟨7, 1000, 0xfffffc00⟩, 0xfffffc00, 0⟩], 0xfffffc00, 0xfffff000⟩ = some s'
        ∧ s' = ⟨[⟨⟨7, 1000, 0x7b8⟩, 0xfffffc00, 3⟩], 0x100000800, 0x100000800⟩ ∧ OnTime s' := by
  have run : Run (fun s event s' => TimerStep s event s' ∧ InTime s event)
      ⟨[], 0xfffff000, 0xfffff000⟩ [.set 7 1000 0xfffffc00]
      ⟨[⟨⟨7, 1000, 0xfffffc00⟩, 0xfffffc00, 0⟩], 0xfffffc00, 0xfffff000⟩ :=
    .cons ⟨.set (by decide) (by decide), trivial⟩ (.nil _)
  obtain ⟨s', called, onTime⟩
      : ∃ s', callTimers 0x100000800 _ = some s' ∧ (OnTime s' ↔ InTime _ (.call 0x100000800)) :=
    timers_on_time rfl (Nat.le_refl _) run (by decide) (by decide)
  have result : callTimers 0x100000800
      ⟨[⟨⟨7, 1000, 0xfffffc00⟩, 0xfffffc00, 0⟩], 0xfffffc00, 0xfffff000⟩
      = some ⟨[⟨⟨7, 1000, 0x7b8⟩, 0xfffffc00, 3⟩], 0x100000800, 0x100000800⟩ := by decide
  refine ⟨s', called, Option.some.inj (called.symm.trans result), onTime.mpr ?_⟩
  intro x mem
  rw [List.mem_singleton.mp mem]
  decide

/-- A timer of one second that is first looked at after 70 seconds: 66 periods stay behind. -/
theorem timers_fall_behind
    : ∃ s s', Run TimerStep ⟨[], 0, 0⟩ [.set 7 1000 0] s ∧ TimerStep s (.call 70000) s'
      ∧ s' = ⟨[⟨⟨7, 1000, 4000⟩, 0, 4⟩], 70000, 70000⟩ ∧ ¬ OnTime s' := by
  refine ⟨⟨[⟨⟨7, 1000, 0⟩, 0, 0⟩], 0, 0⟩, ⟨[⟨⟨7, 1000, 4000⟩, 0, 4⟩], 70000, 70000⟩, ?_, ?_, rfl, ?_⟩
  · exact .cons (.set (by decide) (by decide)) (.nil _)
  · exact .call (by decide) (by decide) (by decide)
  · intro onTime
    exact absurd (onTime _ List.mem_cons_self).2.2 (by decide)

end Smews.Core
