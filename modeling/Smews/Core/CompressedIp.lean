import Mathlib.Data.UInt
import Mathlib.Tactic.IntervalCases

/-! The IPv6 addresses of the connections: `compress_ip` leaves out a run of zeros, `decompress_ip` puts it
back, and `ipcmp` compares what is stored.
-/

namespace Smews.Core

/-- The counters of `compress_ip`. They stay between 0 and 16, so `int8_t` does not wrap. -/
structure ZeroSearch where
  currIndex : Nat
  maxIndex : Nat
  currNb : Nat
  maxNb : Nat
deriving DecidableEq, Repr

/-- One turn of the first loop of `compress_ip`. Only a new maximum sets `curr_nb` back to 0. -/
def ZeroSearch.byte (i : Nat) (byte : UInt8) (s : ZeroSearch) : ZeroSearch :=
  if byte = 0 then
    { s with
      currIndex := if s.currNb = 0 then i else s.currIndex
      currNb := s.currNb + 1
    }
  else if s.maxNb < s.currNb then
    { s with maxNb := s.currNb, maxIndex := s.currIndex, currNb := 0 }
  else
    s

/-- The first loop of `compress_ip`, from index `i` on. -/
def ZeroSearch.bytes : Nat → List UInt8 → ZeroSearch → ZeroSearch
  | _, [], s => s
  | i, byte :: rest, s => ZeroSearch.bytes (i + 1) rest (s.byte i byte)

/-- The run that `compress_ip` leaves out. -/
def zeroSearch (fullIpAddr : Vector UInt8 16) : ZeroSearch :=
  ZeroSearch.bytes 0 fullIpAddr.toList ⟨0, 0, 0, 0⟩

/-- `compress_ip`, with the index byte in front of the address as all its callers store it. -/
def compressIp (fullIpAddr : Vector UInt8 16) : List UInt8 :=
  let s := zeroSearch fullIpAddr
  let compIpAddr : Vector UInt8 16 := Vector.ofFn fun i =>
    if i.val < s.maxIndex then fullIpAddr[i.val]
    else if _ : i.val < 16 - s.maxNb then fullIpAddr[i.val + s.maxNb]
    else 0
  (UInt8.ofNat s.maxIndex <<< 4 ||| UInt8.ofNat s.maxNb) :: compIpAddr.toList

/-- `decompress_ip`; it fails where it would read behind the compressed address. -/
def decompressIp (compIpAddr : List UInt8) (indexes : UInt8) : Option (List UInt8) :=
  let startIndex := (indexes >>> 4).toNat
  let zerosNb := (indexes &&& 15).toNat
  (List.range 16).mapM fun i =>
    if i < startIndex then compIpAddr[i]?
    else if i < startIndex + zerosNb then some 0
    else compIpAddr[i - zerosNb]?

/-- `compressed_ip_size`. -/
def compressedIpSize (ip : List UInt8) : Nat := 17 - (ip.headD 0 &&& 15).toNat

/-- `copy_compressed_ip`: what a connection stores. -/
def copyCompressedIp (src : List UInt8) : List UInt8 := src.take (compressedIpSize src)

/-- The loop of `ipcmp`; it fails where it would read behind an address. -/
def sameBytes : Nat → List UInt8 → List UInt8 → Option Bool
  | 0, _, _ => some true
  | n + 1, x :: xs, y :: ys => if x = y then sameBytes n xs ys else some false
  | _ + 1, _, _ => none

/-- `ipcmp`. -/
def ipcmp (sourceAddr checkAddr : List UInt8) : Option Bool :=
  sameBytes (compressedIpSize sourceAddr) sourceAddr checkAddr

--------------------------------------------------
-- Runs of zeros
--------------------------------------------------

/-- The lengths of the runs of zeros that another byte follows, behind a run of length `n`. -/
def zeroRuns : Nat → List UInt8 → List Nat
  | _, [] => []
  | n, byte :: rest =>
      if byte = 0 then zeroRuns (n + 1) rest
      else if n = 0 then zeroRuns 0 rest
      else n :: zeroRuns 0 rest

/-- The runs cut into groups, each as short as it can be longer than the one before: the last whole group.
`found` is the one before, and `pending` what was seen of the next one.
-/
def lastGroup (found pending : List Nat) : List Nat → List Nat
  | [] => found
  | run :: runs =>
      if found.sum < (pending ++ [run]).sum then lastGroup (pending ++ [run]) [] runs
      else lastGroup found (pending ++ [run]) runs

/-- The group that `compress_ip` leaves out is a single run. -/
def LeavesOneRun (fullIpAddr : Vector UInt8 16) : Prop :=
  (lastGroup [] [] (zeroRuns 0 fullIpAddr.toList)).length ≤ 1

instance (fullIpAddr : Vector UInt8 16) : Decidable (LeavesOneRun fullIpAddr) :=
  inferInstanceAs (Decidable (_ ≤ _))

/-- Runs whose first one starts at an index, and whose lengths together fit behind it. -/
structure Group (bytes : List UInt8) (start : Nat) (runs : List Nat) : Prop where
  fits : start + runs.sum < bytes.length
  positive : ∀ run ∈ runs, 0 < run
  zeros : ∀ i, i < runs.headD 0 → bytes[start + i]? = some 0
  ends : ∃ byte, byte ≠ 0 ∧ bytes[start + runs.headD 0]? = some byte

theorem Group.append {bytes : List UInt8} {start : Nat} {runs : List Nat} (group : Group bytes start runs)
    (rest : List UInt8)
    : Group (bytes ++ rest) start runs := by
  obtain ⟨fits, positive, zeros, byte, other, ends⟩ := group
  refine ⟨by rw [List.length_append]; omega, positive, ?_, byte, other, ?_⟩
  · intro i lt
    have read := zeros i lt
    obtain ⟨inside, _⟩ := List.getElem?_eq_some_iff.mp read
    rw [List.getElem?_append_left inside]
    exact read
  · obtain ⟨inside, _⟩ := List.getElem?_eq_some_iff.mp ends
    rw [List.getElem?_append_left inside]
    exact ends

/-- The run left out is a group of runs, or nothing. -/
def LeftOut (bytes : List UInt8) (s : ZeroSearch) (found : List Nat) : Prop :=
  s.maxNb = found.sum ∧ (found = [] → s.maxIndex = 0) ∧ (found ≠ [] → Group bytes s.maxIndex found)

/-- What the counters say of the bytes seen: `pending` are the runs since the last maximum, and `run` zeros
stand behind them.
-/
structure Seen (bytes : List UInt8) (s : ZeroSearch) (found pending : List Nat) (run : Nat) : Prop where
  left_out : LeftOut bytes s found
  count : s.currNb = pending.sum + run
  short : pending.sum ≤ found.sum
  group : pending ≠ [] → Group bytes s.currIndex pending ∧ s.currIndex + pending.sum + run < bytes.length
  open_run : pending = [] → 0 < run → s.currIndex + run = bytes.length
    ∧ ∀ i, i < run → bytes[s.currIndex + i]? = some 0

theorem LeftOut.append {bytes : List UInt8} {s : ZeroSearch} {found : List Nat}
    (leftOut : LeftOut bytes s found) (rest : List UInt8)
    : LeftOut (bytes ++ rest) s found :=
  ⟨leftOut.1, leftOut.2.1, fun found => (leftOut.2.2 found).append rest⟩

theorem Group.sum_pos {bytes : List UInt8} {start : Nat} {runs : List Nat} (group : Group bytes start runs)
    (some : runs ≠ [])
    : 0 < runs.sum := by
  cases runs with
  | nil => exact absurd rfl some
  | cons run runs =>
      have positive := group.positive run List.mem_cons_self
      rw [List.sum_cons]
      omega

/-- One more zero. -/
theorem Seen.zero {bytes : List UInt8} {s : ZeroSearch} {found pending : List Nat} {run : Nat}
    (seen : Seen bytes s found pending run)
    : Seen (bytes ++ [0]) (s.byte bytes.length 0) found pending (run + 1) := by
  obtain ⟨leftOut, count, short, group, openRun⟩ := seen
  rw [ZeroSearch.byte, if_pos rfl]
  refine ⟨leftOut.append _, by show s.currNb + 1 = _; omega, short, ?_, ?_⟩
  · intro some
    obtain ⟨group, inside⟩ := group some
    have positive := group.sum_pos some
    dsimp only
    rw [if_neg (by omega), List.length_append, List.length_singleton]
    exact ⟨group.append _, by omega⟩
  · rintro rfl _
    dsimp only
    rw [List.sum_nil, Nat.zero_add] at count
    rw [List.length_append, List.length_singleton]
    by_cases first : run = 0
    · subst first
      rw [if_pos count]
      refine ⟨rfl, fun i lt => ?_⟩
      obtain rfl : i = 0 := by omega
      exact List.getElem?_concat_length
    · rw [if_neg (by omega)]
      obtain ⟨reaches, zeros⟩ := openRun rfl (by omega)
      refine ⟨by omega, fun i lt => ?_⟩
      by_cases last : i = run
      · rw [last, reaches]
        exact List.getElem?_concat_length
      · rw [List.getElem?_append_left (by omega)]
        exact zeros i (by omega)

/-- Another byte closes a run. -/
theorem Seen.close {bytes : List UInt8} {s : ZeroSearch} {found pending : List Nat} {run : Nat}
    (seen : Seen bytes s found pending run) (positive : 0 < run) {byte : UInt8} (other : byte ≠ 0)
    : Group (bytes ++ [byte]) s.currIndex (pending ++ [run]) := by
  obtain ⟨_, _, _, group, openRun⟩ := seen
  have sum : (pending ++ [run]).sum = pending.sum + run := by
    rw [List.sum_append, List.sum_singleton]
  cases pending with
  | nil =>
      obtain ⟨reaches, zeros⟩ := openRun rfl positive
      refine ⟨by simp; omega, by simpa using positive, ?_, byte, other, ?_⟩
      · intro i lt
        have lt : i < run := lt
        rw [List.getElem?_append_left (by omega)]
        exact zeros i lt
      · show (bytes ++ [byte])[s.currIndex + run]? = _
        rw [reaches]
        exact List.getElem?_concat_length
  | cons first more =>
      obtain ⟨group, inside⟩ := group (List.cons_ne_nil _ _)
      have appended := group.append [byte]
      refine ⟨?_, ?_, appended.zeros, appended.ends⟩
      · rw [sum, List.length_append]
        omega
      · intro r mem
        rcases List.mem_append.mp mem with mem | mem
        · exact group.positive r mem
        · rwa [List.mem_singleton.mp mem]

/-- One more byte that is no zero, behind no zeros. -/
theorem Seen.other {bytes : List UInt8} {s : ZeroSearch} {found pending : List Nat}
    (seen : Seen bytes s found pending 0) {byte : UInt8} (other : byte ≠ 0)
    : Seen (bytes ++ [byte]) (s.byte bytes.length byte) found pending 0 := by
  obtain ⟨leftOut, count, short, group, openRun⟩ := seen
  have max := leftOut.1
  rw [ZeroSearch.byte, if_neg other, if_neg (by omega)]
  refine ⟨leftOut.append _, count, short, ?_, fun _ positive => absurd positive (Nat.lt_irrefl 0)⟩
  intro some
  obtain ⟨group, inside⟩ := group some
  rw [List.length_append]
  exact ⟨group.append _, by omega⟩

/-- One more byte that is no zero, behind a run that makes no new maximum. -/
theorem Seen.waits {bytes : List UInt8} {s : ZeroSearch} {found pending : List Nat} {run : Nat}
    (seen : Seen bytes s found pending run) (positive : 0 < run) {byte : UInt8} (other : byte ≠ 0)
    (short : (pending ++ [run]).sum ≤ found.sum)
    : Seen (bytes ++ [byte]) (s.byte bytes.length byte) found (pending ++ [run]) 0 := by
  have group := seen.close positive other
  have max := seen.left_out.1
  have count := seen.count
  have sum : (pending ++ [run]).sum = pending.sum + run := by
    rw [List.sum_append, List.sum_singleton]
  rw [ZeroSearch.byte, if_neg other, if_neg (by omega)]
  exact ⟨seen.left_out.append _, by omega, short, fun _ => ⟨group, group.fits⟩,
    fun empty => absurd empty (by simp)⟩

/-- One more byte that is no zero, behind a run that makes a new maximum. -/
theorem Seen.finds {bytes : List UInt8} {s : ZeroSearch} {found pending : List Nat} {run : Nat}
    (seen : Seen bytes s found pending run) (positive : 0 < run) {byte : UInt8} (other : byte ≠ 0)
    (long : found.sum < (pending ++ [run]).sum)
    : Seen (bytes ++ [byte]) (s.byte bytes.length byte) (pending ++ [run]) [] 0 := by
  have group := seen.close positive other
  have max := seen.left_out.1
  have count := seen.count
  have sum : (pending ++ [run]).sum = pending.sum + run := by
    rw [List.sum_append, List.sum_singleton]
  rw [ZeroSearch.byte, if_neg other, if_pos (by omega)]
  exact ⟨⟨by show s.currNb = _; omega, fun empty => absurd empty (by simp), fun _ => group⟩, rfl,
    Nat.zero_le _, fun some => absurd rfl some, fun _ positive => absurd positive (Nat.lt_irrefl 0)⟩

/-- What the whole loop finds, by induction on the bytes to come. -/
theorem Seen.bytes {bytes rest : List UInt8} {s : ZeroSearch} {found pending : List Nat} {run : Nat}
    (seen : Seen bytes s found pending run)
    : LeftOut (bytes ++ rest) (ZeroSearch.bytes bytes.length rest s)
        (lastGroup found pending (zeroRuns run rest)) := by
  induction rest generalizing bytes s found pending run with
  | nil =>
      rw [List.append_nil]
      exact seen.left_out
  | cons byte rest ih =>
      have next : bytes ++ byte :: rest = bytes ++ [byte] ++ rest := by simp
      have length : (bytes ++ [byte]).length = bytes.length + 1 := by simp
      rw [ZeroSearch.bytes, next, ← length, zeroRuns]
      by_cases zero : byte = 0
      · subst zero
        rw [if_pos rfl]
        exact ih seen.zero
      · rw [if_neg zero]
        by_cases none : run = 0
        · subst none
          rw [if_pos rfl]
          exact ih (seen.other zero)
        · rw [if_neg none, lastGroup]
          split
          · next long => exact ih (seen.finds (by omega) zero long)
          · next short => exact ih (seen.waits (by omega) zero (by omega))

/-- What `compress_ip` leaves out. -/
theorem zeroSearch_leftOut (fullIpAddr : Vector UInt8 16)
    : LeftOut fullIpAddr.toList (zeroSearch fullIpAddr)
        (lastGroup [] [] (zeroRuns 0 fullIpAddr.toList)) :=
  have start : Seen [] ⟨0, 0, 0, 0⟩ [] [] 0 :=
    ⟨⟨rfl, fun _ => rfl, fun some => absurd rfl some⟩, rfl, Nat.le_refl _, fun some => absurd rfl some,
      fun _ positive => absurd positive (Nat.lt_irrefl 0)⟩
  start.bytes

theorem zeroSearch_inside (fullIpAddr : Vector UInt8 16)
    : (zeroSearch fullIpAddr).maxIndex + (zeroSearch fullIpAddr).maxNb < 16 := by
  obtain ⟨sum, none, group⟩ := zeroSearch_leftOut fullIpAddr
  by_cases empty : lastGroup [] [] (zeroRuns 0 fullIpAddr.toList) = []
  · rw [none empty, sum, empty]
    decide
  · have fits := (group empty).fits
    rw [Vector.length_toList] at fits
    omega

/-- Only zeros are left out when they are one run. -/
theorem leavesOneRun_iff (fullIpAddr : Vector UInt8 16)
    : LeavesOneRun fullIpAddr ↔ ∀ i, i < (zeroSearch fullIpAddr).maxNb
        → fullIpAddr.toList[(zeroSearch fullIpAddr).maxIndex + i]? = some 0 := by
  obtain ⟨sum, _, group⟩ := zeroSearch_leftOut fullIpAddr
  rw [LeavesOneRun, sum]
  cases runs : lastGroup [] [] (zeroRuns 0 fullIpAddr.toList) with
  | nil => exact ⟨fun _ i lt => absurd lt (Nat.not_lt_zero i), fun _ => Nat.zero_le _⟩
  | cons first more =>
      obtain ⟨_, positive, zeros, byte, other, ends⟩ := group (by rw [runs]; exact List.cons_ne_nil _ _)
      rw [runs] at positive zeros ends
      cases more with
      | nil =>
          refine ⟨fun _ i lt => zeros i ?_, fun _ => Nat.le_refl 1⟩
          rwa [List.sum_singleton] at lt
      | cons second more =>
          refine ⟨fun one => absurd one (by simp), fun all => ?_⟩
          have positive := positive second (by simp)
          have read := all first (by rw [List.sum_cons, List.sum_cons]; omega)
          exact absurd (Option.some.inj (ends.symm.trans read)) other

--------------------------------------------------
-- What is stored
--------------------------------------------------

/-- The index byte holds both numbers. -/
theorem indexes_read {maxIndex maxNb : Nat} (index : maxIndex < 16) (nb : maxNb < 16)
    : ((UInt8.ofNat maxIndex <<< 4 ||| UInt8.ofNat maxNb) >>> 4).toNat = maxIndex
      ∧ ((UInt8.ofNat maxIndex <<< 4 ||| UInt8.ofNat maxNb) &&& 15).toNat = maxNb := by
  have all : ∀ i : Fin 16, ∀ n : Fin 16,
      ((UInt8.ofNat i <<< 4 ||| UInt8.ofNat n) >>> 4).toNat = i
        ∧ ((UInt8.ofNat i <<< 4 ||| UInt8.ofNat n) &&& 15).toNat = n := by decide
  exact all ⟨maxIndex, index⟩ ⟨maxNb, nb⟩

/-- What the index byte and the bytes behind it hold of an address. -/
structure StoredIp (fullIpAddr : Vector UInt8 16) (indexes : UInt8) (compIpAddr : List UInt8) : Prop where
  index : (indexes >>> 4).toNat = (zeroSearch fullIpAddr).maxIndex
  nb : (indexes &&& 15).toNat = (zeroSearch fullIpAddr).maxNb
  before : ∀ i, i < (zeroSearch fullIpAddr).maxIndex → compIpAddr[i]? = fullIpAddr.toList[i]?
  behind : ∀ i, (zeroSearch fullIpAddr).maxIndex ≤ i → i + (zeroSearch fullIpAddr).maxNb < 16
    → compIpAddr[i]? = fullIpAddr.toList[i + (zeroSearch fullIpAddr).maxNb]?

/-- The compressed address, and zeros behind what is stored of it. -/
theorem compressIp_holds (fullIpAddr : Vector UInt8 16)
    : ∃ indexes compIpAddr, compressIp fullIpAddr = indexes :: compIpAddr
      ∧ StoredIp fullIpAddr indexes compIpAddr ∧ compIpAddr.length = 16
      ∧ ∀ i, i < 16 → 16 ≤ i + (zeroSearch fullIpAddr).maxNb → compIpAddr[i]? = some 0 := by
  have inside := zeroSearch_inside fullIpAddr
  obtain ⟨index, nb⟩ := indexes_read (by omega : (zeroSearch fullIpAddr).maxIndex < 16)
    (by omega : (zeroSearch fullIpAddr).maxNb < 16)
  refine ⟨_, _, rfl, ⟨index, nb, ?_, ?_⟩, by simp, ?_⟩
  · intro i lt
    have bound : i < 16 := by omega
    simp [bound, lt]
  · intro i le lt
    have bound : i < 16 := by omega
    have short : i < 16 - (zeroSearch fullIpAddr).maxNb := by omega
    simp [bound, Nat.not_lt.mpr le, short, lt]
  · intro i bound ge
    have behind : ¬ i < (zeroSearch fullIpAddr).maxIndex := by omega
    have long : ¬ i < 16 - (zeroSearch fullIpAddr).maxNb := by omega
    simp [bound, behind, long]

/-- What is stored is enough. -/
theorem StoredIp.take {fullIpAddr : Vector UInt8 16} {indexes : UInt8} {compIpAddr : List UInt8}
    (holds : StoredIp fullIpAddr indexes compIpAddr)
    : StoredIp fullIpAddr indexes (compIpAddr.take (16 - (zeroSearch fullIpAddr).maxNb)) := by
  have inside := zeroSearch_inside fullIpAddr
  refine ⟨holds.index, holds.nb, fun i lt => ?_, fun i le lt => ?_⟩
  · rw [List.getElem?_take_of_lt (by omega)]
    exact holds.before i lt
  · rw [List.getElem?_take_of_lt (by omega)]
    exact holds.behind i le lt

/-- Reads that all succeed, by induction on the indexes. -/
theorem mapM_reads {read : Nat → Option UInt8} {value : Nat → UInt8} {indexes : List Nat}
    (reads : ∀ i ∈ indexes, read i = some (value i))
    : indexes.mapM read = some (indexes.map value) := by
  induction indexes with
  | nil => rfl
  | cons i indexes ih =>
      rw [List.mapM_cons, reads i List.mem_cons_self, ih fun j mem => reads j (List.mem_cons_of_mem i mem)]
      rfl

/-- The address that `decompress_ip` makes has zeros for the run left out. -/
theorem StoredIp.decompressIp {fullIpAddr : Vector UInt8 16} {indexes : UInt8} {compIpAddr : List UInt8}
    (holds : StoredIp fullIpAddr indexes compIpAddr)
    : decompressIp compIpAddr indexes = some ((List.range 16).map fun i =>
        if (zeroSearch fullIpAddr).maxIndex ≤ i
            ∧ i < (zeroSearch fullIpAddr).maxIndex + (zeroSearch fullIpAddr).maxNb then 0
        else fullIpAddr.toList.getD i 0) := by
  have inside := zeroSearch_inside fullIpAddr
  rw [Core.decompressIp, holds.index, holds.nb]
  refine mapM_reads fun i mem => ?_
  have bound := List.mem_range.mp mem
  have given : ∀ j, j < 16 → fullIpAddr.toList[j]? = some (fullIpAddr.toList.getD j 0) := by
    intro j lt
    rw [List.getD_eq_getElem?_getD, List.getElem?_eq_getElem (by simpa using lt), Option.getD_some]
  by_cases before : i < (zeroSearch fullIpAddr).maxIndex
  · rw [if_pos before, if_neg (by omega), holds.before i before, given i bound]
  · rw [if_neg before]
    by_cases run : i < (zeroSearch fullIpAddr).maxIndex + (zeroSearch fullIpAddr).maxNb
    · rw [if_pos run, if_pos (by omega)]
    · rw [if_neg run, if_neg (by omega), holds.behind _ (by omega) (by omega),
        Nat.sub_add_cancel (by omega), given i bound]

/-- An address is restored when one run is left out, and only then. -/
theorem StoredIp.restored {fullIpAddr : Vector UInt8 16} {indexes : UInt8} {compIpAddr : List UInt8}
    (holds : StoredIp fullIpAddr indexes compIpAddr)
    : Core.decompressIp compIpAddr indexes = some fullIpAddr.toList ↔ LeavesOneRun fullIpAddr := by
  have inside := zeroSearch_inside fullIpAddr
  rw [holds.decompressIp, Option.some.injEq, leavesOneRun_iff]
  constructor
  · intro same i lt
    rw [← same, List.getElem?_map, List.getElem?_range (by omega), Option.map_some, if_pos (by omega)]
  · intro zeros
    refine List.ext_getElem? fun i => ?_
    rw [List.getElem?_map]
    by_cases bound : i < 16
    · rw [List.getElem?_range bound, Option.map_some, List.getD_eq_getElem?_getD]
      split
      · next run =>
          have zero := zeros (i - (zeroSearch fullIpAddr).maxIndex) (by omega)
          rw [Nat.add_sub_cancel' run.1] at zero
          exact zero.symm
      · rw [List.getElem?_eq_getElem (by simpa using bound), Option.getD_some]
    · rw [List.getElem?_eq_none (by simpa using bound), List.getElem?_eq_none (by simpa using bound)]
      rfl

/-- Comparing the first bytes of two lists that are long enough. -/
theorem sameBytes_iff {n : Nat} {xs ys : List UInt8} (first : n ≤ xs.length) (second : n ≤ ys.length)
    : sameBytes n xs ys = some (decide (xs.take n = ys.take n)) := by
  induction n generalizing xs ys with
  | zero => simp [sameBytes]
  | succ n ih =>
      cases xs with
      | nil => exact absurd first (by simp)
      | cons x xs =>
          cases ys with
          | nil => exact absurd second (by simp)
          | cons y ys =>
              rw [sameBytes, List.take_succ_cons, List.take_succ_cons]
              by_cases same : x = y
              · rw [if_pos same, ih (Nat.le_of_succ_le_succ first) (Nat.le_of_succ_le_succ second)]
                simp [same]
              · rw [if_neg same]
                simp [same]

--------------------------------------------------
-- Compressed addresses
--------------------------------------------------

/-- `decompress_ip` as `smews_send_packet` calls it. -/
def decompressed : List UInt8 → Option (List UInt8)
  | [] => none
  | indexes :: compIpAddr => decompressIp compIpAddr indexes

/-- The 17 minus `max_nb` bytes that a connection stores are all that the other functions need. -/
structure Covers (fullIpAddr : Vector UInt8 16) : Prop where
  length : (copyCompressedIp (compressIp fullIpAddr)).length = compressedIpSize (compressIp fullIpAddr)
  zeros : ∀ i, compressedIpSize (compressIp fullIpAddr) ≤ i → i < 17 → (compressIp fullIpAddr)[i]? = some 0
  restored : decompressed (copyCompressedIp (compressIp fullIpAddr)) = decompressed (compressIp fullIpAddr)
  compared : ∀ other, ipcmp (copyCompressedIp (compressIp fullIpAddr)) (compressIp other)
    = ipcmp (compressIp fullIpAddr) (compressIp other)

theorem compressIp_length (fullIpAddr : Vector UInt8 16) : (compressIp fullIpAddr).length = 17 := by
  obtain ⟨indexes, compIpAddr, eq, _, length, _⟩ := compressIp_holds fullIpAddr
  rw [eq, List.length_cons, length]

theorem compressedIpSize_le (ip : List UInt8) : compressedIpSize ip ≤ 17 := Nat.sub_le _ _

/-- What is stored begins with the index byte, so that it tells its own size. -/
theorem copyCompressedIp_eq {fullIpAddr : Vector UInt8 16} {indexes : UInt8} {compIpAddr : List UInt8}
    (eq : compressIp fullIpAddr = indexes :: compIpAddr) (holds : StoredIp fullIpAddr indexes compIpAddr)
    : compressedIpSize (compressIp fullIpAddr) = 17 - (zeroSearch fullIpAddr).maxNb
      ∧ copyCompressedIp (compressIp fullIpAddr)
        = indexes :: compIpAddr.take (16 - (zeroSearch fullIpAddr).maxNb) := by
  have inside := zeroSearch_inside fullIpAddr
  have size : compressedIpSize (compressIp fullIpAddr) = 17 - (zeroSearch fullIpAddr).maxNb := by
    rw [compressedIpSize, eq, List.headD_cons, holds.nb]
  refine ⟨size, ?_⟩
  rw [copyCompressedIp, size, eq, show 17 - (zeroSearch fullIpAddr).maxNb
    = (16 - (zeroSearch fullIpAddr).maxNb) + 1 by omega, List.take_succ_cons]

theorem ipcmp_compressed (a b : Vector UInt8 16)
    : ipcmp (compressIp a) (compressIp b)
      = some (decide ((compressIp a).take (compressedIpSize (compressIp a))
        = (compressIp b).take (compressedIpSize (compressIp a)))) :=
  sameBytes_iff (by rw [compressIp_length]; exact compressedIpSize_le _)
    (by rw [compressIp_length]; exact compressedIpSize_le _)

theorem covers (fullIpAddr : Vector UInt8 16) : Covers fullIpAddr := by
  have inside := zeroSearch_inside fullIpAddr
  obtain ⟨indexes, compIpAddr, eq, holds, length, zeros⟩ := compressIp_holds fullIpAddr
  obtain ⟨size, copied⟩ := copyCompressedIp_eq eq holds
  have long : compressedIpSize (compressIp fullIpAddr)
      ≤ (copyCompressedIp (compressIp fullIpAddr)).length := by
    rw [copied, size, List.length_cons, List.length_take, length]
    omega
  refine ⟨?_, ?_, ?_, ?_⟩
  · rw [copied, size, List.length_cons, List.length_take, length]
    omega
  · intro i le lt
    rw [size] at le
    rw [eq, List.getElem?_cons, if_neg (by omega)]
    exact zeros (i - 1) (by omega) (by omega)
  · rw [copied, eq, decompressed, decompressed, holds.decompressIp, holds.take.decompressIp]
  · intro other
    have same : compressedIpSize (copyCompressedIp (compressIp fullIpAddr))
        = compressedIpSize (compressIp fullIpAddr) := by
      rw [copied, eq]
      rfl
    rw [ipcmp_compressed, ipcmp, same,
      sameBytes_iff long (by rw [compressIp_length]; exact compressedIpSize_le _),
      copyCompressedIp, List.take_take, Nat.min_self]

/-- Addresses that compare equal are stored alike. -/
theorem ipcmp_copied {a b : Vector UInt8 16} (same : ipcmp (compressIp a) (compressIp b) = some true)
    : copyCompressedIp (compressIp a) = copyCompressedIp (compressIp b) := by
  obtain ⟨indexes, compIpAddr, eq, holds, _⟩ := compressIp_holds a
  obtain ⟨indexes', compIpAddr', eq', holds', _⟩ := compressIp_holds b
  have inside := zeroSearch_inside a
  rw [ipcmp_compressed, Option.some.injEq, decide_eq_true_eq] at same
  have size : compressedIpSize (compressIp a) = compressedIpSize (compressIp b) := by
    have first := congrArg (·.headD 0) same
    rw [(copyCompressedIp_eq eq holds).1, eq, eq', show 17 - (zeroSearch a).maxNb
      = (16 - (zeroSearch a).maxNb) + 1 by omega, List.take_succ_cons, List.take_succ_cons] at first
    have first : indexes = indexes' := first
    rw [compressedIpSize, compressedIpSize, eq, eq', List.headD_cons, List.headD_cons, first]
  rw [copyCompressedIp, copyCompressedIp, ← size]
  exact same

theorem decompressed_iff (fullIpAddr : Vector UInt8 16)
    : decompressed (compressIp fullIpAddr) = some fullIpAddr.toList ↔ LeavesOneRun fullIpAddr := by
  obtain ⟨indexes, compIpAddr, eq, holds, _⟩ := compressIp_holds fullIpAddr
  rw [eq]
  exact holds.restored

/-- Addresses come back from their compressed form, which covers all that is read of it and tells them apart,
when what is left out of each is a single run of zeros, and only then.
-/
theorem compressed_ip_lossless (a b : Vector UInt8 16)
    : (decompressed (compressIp a) = some a.toList ∧ decompressed (compressIp b) = some b.toList
        ∧ ipcmp (compressIp a) (compressIp b) = some (decide (a = b)) ∧ Covers a ∧ Covers b)
      ↔ LeavesOneRun a ∧ LeavesOneRun b := by
  constructor
  · rintro ⟨restored, restored', _⟩
    exact ⟨(decompressed_iff a).mp restored, (decompressed_iff b).mp restored'⟩
  · rintro ⟨one, one'⟩
    have restored := (decompressed_iff a).mpr one
    have restored' := (decompressed_iff b).mpr one'
    refine ⟨restored, restored', ?_, covers a, covers b⟩
    by_cases same : a = b
    · rw [same, ipcmp_compressed, decide_eq_true rfl, decide_eq_true rfl]
    · rw [decide_eq_false same, ipcmp_compressed, Option.some.injEq, decide_eq_false_iff_not]
      intro alike
      have equal : ipcmp (compressIp a) (compressIp b) = some true := by
        rw [ipcmp_compressed, decide_eq_true alike]
      have copied := ipcmp_copied equal
      have lists : some a.toList = some b.toList := by
        rw [← restored, ← restored', ← (covers a).restored, ← (covers b).restored, copied]
      exact same (Vector.toList_inj.mp (Option.some.inj lists))

/-- Runs of 2, 1 and 2 zeros: the counter of the second run goes on with the third one, and 3 bytes from the
second run on are left out, with the byte 1 among them. Another address with a 2 there compares equal.
-/
theorem compressed_ip_lossy
    : decompressed (compressIp #v[0x20, 1, 0, 0, 1, 0, 1, 0, 0, 1, 1, 1, 1, 1, 1, 1])
        = some [0x20, 1, 0, 0, 1, 0, 0, 0, 0, 1, 1, 1, 1, 1, 1, 1]
      ∧ ipcmp (compressIp #v[0x20, 1, 0, 0, 1, 0, 1, 0, 0, 1, 1, 1, 1, 1, 1, 1])
        (compressIp #v[0x20, 1, 0, 0, 1, 0, 2, 0, 0, 1, 1, 1, 1, 1, 1, 1]) = some true := by
  decide

end Smews.Core
