import Smews.Core.Connections

/-! What the operations on blocks and coroutines leave alone: the characters of all blocks, and
the coroutines other than the one they are about.
-/

namespace Smews.Core.Heap

variable (p : Program) (h : Heap)

--------------------------------------------------
-- Characters
--------------------------------------------------

@[simp] theorem memAlloc_chars (n : UInt16) : (h.memAlloc n).2.chars = h.chars := by
  unfold memAlloc; split <;> rfl

@[simp] theorem memFree_chars (a : Option Addr) (n : UInt16) : (h.memFree a n).chars = h.chars := by
  unfold memFree; split
  · rfl
  · split <;> rfl

theorem memFreePointer_chars {a : Pointer} {n : UInt16} {h' : Heap}
    (free : h.memFreePointer a n = some h')
    : h'.chars = h.chars := by
  cases a <;> simp only [memFreePointer, Option.some.injEq, reduceCtorEq] at free <;> subst free
  · rfl
  · simp

@[simp] theorem setContext_chars (r : CrRef) (c : Context) : (h.setContext r c).chars = h.chars := rfl

@[simp] theorem setCoroutine_chars (r : CrRef) (c : Coroutine)
    : (h.setCoroutine r c).chars = h.chars := rfl

@[simp] theorem crInit_chars (r : CrRef) : (h.crInit p r).chars = h.chars := rfl

@[simp] theorem crSuspend_chars (r : CrRef) (f : Frame) : (h.crSuspend p r f).chars = h.chars := rfl

@[simp] theorem crTerminate_chars (r : CrRef) : (h.crTerminate r).chars = h.chars := rfl

@[simp] theorem crEvict_chars : h.crEvict.2.chars = h.chars := by
  unfold crEvict
  split
  · rfl
  · have := h.memAlloc_chars
    dsimp only
    split <;> rename_i alloc
    all_goals
      rw [← this, alloc]
      rfl

@[simp] theorem crInstall_chars (r : CrRef) : (h.crInstall r).chars = h.chars := by
  unfold crInstall
  dsimp only
  split
  · rfl
  · simp

@[simp] theorem crPrepare_chars (r : CrRef) : (h.crPrepare r).2.chars = h.chars := by
  unfold crPrepare
  split
  · rfl
  · have := h.crEvict_chars
    split <;> rename_i evict <;> rw [evict] at this
    · exact this
    · simpa using this

@[simp] theorem crClean_chars (r : CrRef) : (h.crClean r).chars = h.chars := by
  unfold crClean
  simp only [memFree_chars]
  split <;> rfl

@[simp] theorem freeInFlight_chars (persistent : Bool) (r : InFlight)
    : (h.freeInFlight p persistent r).chars = h.chars := by
  unfold freeInFlight
  split <;> simp

@[simp] theorem foldl_freeInFlight_chars (persistent : Bool) (rs : List InFlight)
    : (rs.foldl (fun h r => h.freeInFlight p persistent r) h).chars = h.chars := by
  induction rs generalizing h with
  | nil => rfl
  | cons r rs ih => simp [ih]

/-- Bytes stored from the beginning of a block on leave the offsets after them alone. -/
theorem storeBytes_chars_of_le {a : Addr} {bytes : List UInt8} {n : Nat}
    (le : bytes.length ≤ n) (b : Addr) {i : Int} (hi : (n : Int) ≤ i)
    : (h.storeBytes a bytes).chars b i = h.chars b i := by
  by_cases hb : b = a
  · subst hb
    have : bytes.length ≤ i.toNat := by omega
    simp only [storeBytes, Function.update_self]
    split
    · simp [List.getD_eq_getElem?_getD, List.getElem?_eq_none this]
    · rfl
  · simp [storeBytes, Function.update_of_ne hb]

--------------------------------------------------
-- Coroutines
--------------------------------------------------

@[simp] theorem memAlloc_coroutine (n : UInt16) : (h.memAlloc n).2.coroutine = h.coroutine := by
  unfold memAlloc; split <;> rfl

@[simp] theorem memFree_coroutine (a : Option Addr) (n : UInt16)
    : (h.memFree a n).coroutine = h.coroutine := by
  unfold memFree; split
  · rfl
  · split <;> rfl

@[simp] theorem memAlloc_postData (n : UInt16) : (h.memAlloc n).2.postData = h.postData := by
  unfold memAlloc; split <;> rfl

@[simp] theorem memAlloc_starts (n : UInt16) : (h.memAlloc n).2.starts = h.starts := by
  unfold memAlloc; split <;> rfl

@[simp] theorem memFree_starts (a : Option Addr) (n : UInt16) : (h.memFree a n).starts = h.starts := by
  unfold memFree; split
  · rfl
  · split <;> rfl

@[simp] theorem setContext_starts (r : CrRef) (c : Context) : (h.setContext r c).starts = h.starts :=
  rfl

@[simp] theorem setContext_coroutine_self (r : CrRef) (c : Context)
    : ((h.setContext r c).coroutine r) = { h.coroutine r with currContext := c } := by
  simp [setContext, setCoroutine]

theorem setContext_coroutine_of_ne {r r' : CrRef} (ne : r' ≠ r) (c : Context)
    : (h.setContext r c).coroutine r' = h.coroutine r' := by
  simp [setContext, setCoroutine, Function.update_of_ne ne]

/-- Evicting the coroutine in the stack leaves the other ones alone. -/
theorem crEvict_coroutine {r : CrRef} (ne : h.crInStack ≠ some r)
    : h.crEvict.2.coroutine r = h.coroutine r := by
  unfold crEvict
  split
  · rfl
  · rename_i r' inStack
    have ne' : r ≠ r' := fun eq => ne (by rw [inStack, eq])
    have frame := h.memAlloc_coroutine
    dsimp only
    split <;> rename_i alloc
    all_goals
      rw [setContext_coroutine_of_ne _ ne']
      have := frame (h.coroutine r').currContext.sp
      rw [alloc] at this
      exact congrFun this r

/-- The preparation of a coroutine keeps its function and its status. -/
theorem crPrepare_coroutine (r : CrRef)
    : ((h.crPrepare r).2.coroutine r).func = (h.coroutine r).func
      ∧ ((h.crPrepare r).2.coroutine r).currContext.status = (h.coroutine r).currContext.status := by
  unfold crPrepare
  split
  · exact ⟨rfl, rfl⟩
  · rename_i notIn
    have evict := h.crEvict_coroutine notIn
    split <;> rename_i eq <;> rw [eq] at evict
    · exact ⟨by rw [← evict], by rw [← evict]⟩
    · rw [← evict]
      unfold crInstall
      dsimp only
      split <;> simp

@[simp] theorem crEvict_starts : h.crEvict.2.starts = h.starts := by
  unfold crEvict
  split
  · rfl
  · have := h.memAlloc_starts
    dsimp only
    split <;> rename_i alloc
    all_goals
      rw [← this, alloc]
      rfl

@[simp] theorem crPrepare_starts (r : CrRef) : (h.crPrepare r).2.starts = h.starts := by
  unfold crPrepare
  split
  · rfl
  · have := h.crEvict_starts
    split <;> rename_i evict <;> rw [evict] at this
    · exact this
    · rw [← this]
      unfold crInstall
      dsimp only
      split <;> simp

end Smews.Core.Heap
