import Mathlib.Tactic.SplitIfs
import Smews.Core.HeapFrames
import Smews.System.Steps

/-! The bounds on what `smews_send` stores and emits: the output buffer, the MSS of the peer
and its window.
-/

namespace Smews.Output

open Smews.Core

--------------------------------------------------
-- Limits
--------------------------------------------------

variable (p : Program)

/-- Rounding to whole chunks does not exceed the MSS. -/
theorem maxOutSize_le (mss : UInt16) : p.maxOutSize mss ≤ mss.toNat := by
  rw [Program.maxOutSize, Nat.shiftLeft_eq, Nat.shiftRight_eq_div_pow]
  exact Nat.div_mul_le_self _ _

/-- The limit for a segment when its header fits the MSS. -/
theorem maxBytes_eq {mss : UInt16} {header : ServiceHeader}
    (room : serviceHeadersSize header ≤ p.maxOutSize mss)
    : (maxBytes p mss header).toNat
      = min p.outputBufferSize.toNat (p.maxOutSize mss - serviceHeadersSize header) := by
  have small : p.outputBufferSize.toNat < 65536 := p.outputBufferSize.toNat_lt
  have limit : (min (p.outputBufferSize.toNat : Int)
      ((p.maxOutSize mss : Int) - serviceHeadersSize header) % 2 ^ 16).toNat
      = min p.outputBufferSize.toNat (p.maxOutSize mss - serviceHeadersSize header) := by omega
  unfold maxBytes UInt16.ofInt
  rw [limit, UInt16.toNat_ofNat']
  omega

--------------------------------------------------
-- The output coroutine
--------------------------------------------------

/-- All the bytes that a generator writes. -/
def outputs : Cont → List UInt8
  | .ret _ => []
  | .outC c k => c :: outputs k
  | .inC k => outputs (k none)

/-- The bytes stored stay within the limit, by induction on the generator. -/
theorem produce_length_le {m : UInt16} (k : Cont) {stored : List UInt8}
    (le : stored.length ≤ m.toNat)
    : (produce m k stored).2.length ≤ m.toNat := by
  induction k generalizing stored with
  | ret _ => exact le
  | outC c k ih =>
      unfold produce
      split_ifs with full
      · exact le
      · apply ih
        have := m.toNat_lt
        have ne : stored.length ≠ m.toNat := by
          intro eq
          exact full (by rw [eq, UInt16.ofNat_toNat])
        simp only [List.length_append, List.length_cons, List.length_nil]
        omega
  | inC k ih => exact ih none le

/-- The bytes stored are at most those that the generator writes. -/
theorem produce_length_le_outputs {m : UInt16} (k : Cont) (stored : List UInt8)
    : (produce m k stored).2.length ≤ stored.length + (outputs k).length := by
  induction k generalizing stored with
  | ret _ => simp [produce]
  | outC c k ih =>
      unfold produce
      split_ifs
      · simp
      · refine (ih (stored ++ [c])).trans ?_
        simp only [List.length_append, List.length_cons, List.length_nil, outputs]
        omega
  | inC k ih => exact ih none stored

/-- A run of the output coroutine stays within a positive limit. -/
theorem runOutput_length_le {a : Addr} {postOut : Bool} {m : UInt16} {h h' : Heap}
    {result : Option Frame × List UInt8}
    (run : runOutput p a postOut m h = some (result, h'))
    (room : (h.coroutine (.service a)).currContext.status ≠ .active ∨ 1 ≤ m.toNat)
    : result.2.length ≤ m.toNat := by
  unfold runOutput at run
  dsimp only at run
  split at run
  · split_ifs at run
    cases start : startOutput p h (h.coroutine (.service a)).func with
    | none => simp [start] at run
    | some k =>
        simp only [start, Option.bind_eq_bind, Option.bind_some, Option.some.injEq,
          Prod.mk.injEq] at run
        rw [← run.1]
        exact produce_length_le k (Nat.zero_le _)
  · rename_i active
    split at run
    · simp only [Option.some.injEq, Prod.mk.injEq] at run
      rw [← run.1]
      have : 1 ≤ m.toNat := by
        rcases room with inactive | positive
        · exact absurd active inactive
        · exact positive
      exact produce_length_le _ (by simpa using this)
    · cases run
  · cases run

/-- A generator that writes no more than the limit ends. -/
theorem produce_ends {m : UInt16} (k : Cont) {stored : List UInt8}
    (short : stored.length + (outputs k).length ≤ m.toNat)
    : (produce m k stored).1 = none := by
  induction k generalizing stored with
  | ret _ => rfl
  | outC c k ih =>
      simp only [outputs, List.length_cons] at short
      have := m.toNat_lt
      have room : UInt16.ofNat stored.length ≠ m := by
        intro full
        have lengths := congrArg UInt16.toNat full
        rw [UInt16.toNat_ofNat'] at lengths
        omega
      unfold produce
      rw [if_neg room]
      exact ih (by simp only [List.length_append, List.length_cons, List.length_nil]; omega)
  | inC k ih => exact ih none short

/-- The first run of the output coroutine is a run of its function. -/
theorem runOutput_ready {a : Addr} {postOut : Bool} {m : UInt16} {h h' : Heap}
    {frame : Option Frame} {bytes : List UInt8}
    (run : runOutput p a postOut m h = some ((frame, bytes), h'))
    (ready : (h.coroutine (.service a)).currContext.status = .ready)
    : ∃ k, startOutput p h (h.coroutine (.service a)).func = some k
      ∧ frame = (produce m k []).1 ∧ bytes = (produce m k []).2 := by
  unfold runOutput at run
  dsimp only at run
  rw [ready] at run
  dsimp only at run
  split_ifs at run
  cases start : startOutput p h (h.coroutine (.service a)).func with
  | none => simp [start] at run
  | some k =>
      simp only [start, Option.bind_eq_bind, Option.bind_some, Option.some.injEq,
        Prod.mk.injEq] at run
      exact ⟨k, rfl, by rw [run.1], by rw [run.1]⟩

/-- The run of a coroutine leaves the characters of all blocks alone. -/
theorem runOutput_chars {a : Addr} {postOut : Bool} {m : UInt16} {h h' : Heap}
    {result : Option Frame × List UInt8}
    (run : runOutput p a postOut m h = some (result, h'))
    : h'.chars = h.chars := by
  unfold runOutput at run
  dsimp only at run
  split at run
  · split_ifs at run
    cases start : startOutput p h (h.coroutine (.service a)).func with
    | none => simp [start] at run
    | some k =>
        simp only [start, Option.bind_eq_bind, Option.bind_some, Option.some.injEq,
          Prod.mk.injEq] at run
        rw [← run.2]
  · split at run
    · simp only [Option.some.injEq, Prod.mk.injEq] at run
      rw [← run.2]
    · cases run
  · cases run

/-- The start of a generator depends on the characters of its arguments and on the number of
coroutines started before.
-/
theorem startOutput_congr {h h' : Heap} (chars : h'.chars = h.chars) (starts : h'.starts = h.starts)
    (func : CrFunc)
    : startOutput p h' func = startOutput p h func := by
  have view : ∀ args, argsView h' args = argsView h args := by
    intro args
    cases args <;> simp [argsView, chars]
  unfold startOutput
  simp only [starts, view]

end Smews.Output
