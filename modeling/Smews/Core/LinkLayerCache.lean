import Mathlib.Data.List.Basic
import Mathlib.Data.List.Induction
import Mathlib.Data.UInt

/-! The cache of link-layer addresses, `link_layer_cache.c`. One scan of the table looks for the address, for a free
entry and for the oldest one.
-/

namespace Smews.Core

variable {Ip Ll : Type} [DecidableEq Ip] [Zero Ip]

--------------------------------------------------
-- The table
--------------------------------------------------

/-- `LinkLayerEntry`. The entry is free when its IP address is null. -/
structure LinkLayerEntry (Ip Ll : Type) where
  ip : Ip
  timestamp : UInt32
  linkLayer : Ll
deriving DecidableEq, Repr

/-- `LINK_LAYER_CACHE_MAX_ENTRY`, which the 8-bit index of the loops has to reach. -/
structure MaxEntry where
  val : Nat
  pos : 0 < val
  fits : val < 256

/-- `_link_layer_table` before the first address is added. -/
def emptyTable (maxEntry : MaxEntry) (blank : Ll) : List (LinkLayerEntry Ip Ll) :=
  List.replicate maxEntry.val { ip := 0, timestamp := 0, linkLayer := blank }

/-- What the scan of `add_link_layer_address` ends with: the entry that takes the address, or `min_time_idx`. -/
inductive Scanned
  | found (i : Nat)
  | full (minTimeIdx : Nat)
deriving DecidableEq, Repr

/-- The loop of `add_link_layer_address` from the entry `i` on. -/
def scanTable (ip : Ip) (minTime : UInt32) (minTimeIdx i : Nat) : List (LinkLayerEntry Ip Ll) → Scanned
  | [] => .full minTimeIdx
  | entry :: entries =>
      let (minTime, minTimeIdx) :=
        if entry.timestamp < minTime then (entry.timestamp, i) else (minTime, minTimeIdx)
      if entry.ip = ip ∨ entry.ip = 0 then .found i
      else scanTable ip minTime minTimeIdx (i + 1) entries

/-- The scan of the whole table. -/
def scanned (ip : Ip) (table : List (LinkLayerEntry Ip Ll)) : Scanned :=
  match table with
  | [] => .full 0
  | first :: _ => scanTable ip first.timestamp 0 0 table

/-- A call of `add_link_layer_address`, with the value of `NOW` if it is evaluated. -/
structure LinkLayerAdd (Ip Ll : Type) where
  ip : Ip
  linkLayer : Ll
  now : UInt32
deriving DecidableEq, Repr

/-- `add_link_layer_address`. -/
def addLinkLayerAddress (table : List (LinkLayerEntry Ip Ll)) (a : LinkLayerAdd Ip Ll)
    : List (LinkLayerEntry Ip Ll) :=
  match scanned a.ip table with
  | .found i =>
      table.modify i fun entry =>
        {
          ip := if entry.ip = 0 then a.ip else entry.ip
          timestamp := a.now
          linkLayer := a.linkLayer
        }
  | .full minTimeIdx => table.modify minTimeIdx fun entry => { entry with ip := a.ip, linkLayer := a.linkLayer }

/-- `get_link_layer_address`: the address that it copies, if it returns 1. -/
def getLinkLayerAddress (table : List (LinkLayerEntry Ip Ll)) (ip : Ip) : Option Ll :=
  (table.find? fun entry => entry.ip = ip).map LinkLayerEntry.linkLayer

/-- The address that a call removes from the table. -/
def evictedBy (table : List (LinkLayerEntry Ip Ll)) (a : LinkLayerAdd Ip Ll) : Option Ip :=
  match scanned a.ip table with
  | .found _ => none
  | .full minTimeIdx => table[minTimeIdx]?.map LinkLayerEntry.ip

/-- The entry that a call writes, whether another address was replaced there, and `NOW`, which is evaluated when
none was.
-/
structure LinkLayerWrite where
  entry : Nat
  replaced : Bool
  now : UInt32
deriving DecidableEq, Repr

def writeOf (table : List (LinkLayerEntry Ip Ll)) (a : LinkLayerAdd Ip Ll) : LinkLayerWrite :=
  match scanned a.ip table with
  | .found i => ⟨i, false, a.now⟩
  | .full minTimeIdx => ⟨minTimeIdx, true, a.now⟩

--------------------------------------------------
-- The scan
--------------------------------------------------

section Scan

variable {ip : Ip} {minTime : UInt32} {minTimeIdx i : Nat} {table : List (LinkLayerEntry Ip Ll)}

/-- The scan ends at the first entry that has the address or none, by induction on the table. -/
theorem scanTable_found {k : Nat} (found : scanTable ip minTime minTimeIdx i table = .found k)
    : ∃ before entry after, table = before ++ entry :: after ∧ k = i + before.length
      ∧ (entry.ip = ip ∨ entry.ip = 0) ∧ ∀ e ∈ before, e.ip ≠ ip ∧ e.ip ≠ 0 := by
  induction table generalizing minTime minTimeIdx i with
  | nil => cases found
  | cons entry entries ih =>
      rw [scanTable] at found
      dsimp only at found
      split at found
      · rename_i here
        cases found
        exact ⟨[], entry, entries, rfl, rfl, here, by simp⟩
      · rename_i other
        obtain ⟨before, found_entry, after, rfl, place, here, others⟩ := ih found
        refine ⟨entry :: before, found_entry, after, rfl, ?_, here, ?_⟩
        · rw [List.length_cons]
          omega
        · exact List.forall_mem_cons.mpr ⟨not_or.mp other, others⟩

/-- A full table was compared with the address to its end, and the oldest entry is kept, by induction on the table.
The oldest entry so far is at `minTimeIdx`, in front of `i`.
-/
theorem scanTable_full {k : Nat} (full : scanTable ip minTime minTimeIdx i table = .full k)
    : (∀ e ∈ table, e.ip ≠ ip ∧ e.ip ≠ 0)
      ∧ (k = minTimeIdx ∧ (∀ e ∈ table, minTime ≤ e.timestamp)
        ∨ ∃ e, i ≤ k ∧ table[k - i]? = some e ∧ e.timestamp ≤ minTime ∧ ∀ e' ∈ table, e.timestamp ≤ e'.timestamp) := by
  induction table generalizing minTime minTimeIdx i with
  | nil =>
      cases full
      exact ⟨by simp, .inl ⟨rfl, by simp⟩⟩
  | cons entry entries ih =>
      rw [scanTable] at full
      dsimp only at full
      split at full
      · cases full
      · rename_i other
        obtain ⟨others, oldest⟩ := ih full
        refine ⟨List.forall_mem_cons.mpr ⟨not_or.mp other, others⟩, ?_⟩
        by_cases older : entry.timestamp < minTime
        · rw [if_pos older] at oldest
          right
          rcases oldest with ⟨rfl, least⟩ | ⟨e, le, here, older', least⟩
          · refine ⟨entry, Nat.le_refl _, ?_, UInt32.le_of_lt older, List.forall_mem_cons.mpr ⟨UInt32.le_refl _, least⟩⟩
            rw [Nat.sub_self, List.getElem?_cons_zero]
          · refine ⟨e, by omega, ?_, UInt32.le_trans older' (UInt32.le_of_lt older),
              List.forall_mem_cons.mpr ⟨older', least⟩⟩
            rw [show k - i = (k - (i + 1)) + 1 by omega, List.getElem?_cons_succ, here]
        · rw [if_neg older] at oldest
          have newer : minTime ≤ entry.timestamp := UInt32.not_lt.mp older
          rcases oldest with ⟨rfl, least⟩ | ⟨e, le, here, older', least⟩
          · exact .inl ⟨rfl, List.forall_mem_cons.mpr ⟨newer, least⟩⟩
          · refine .inr ⟨e, by omega, ?_, older', List.forall_mem_cons.mpr ⟨UInt32.le_trans older' newer, least⟩⟩
            rw [show k - i = (k - (i + 1)) + 1 by omega, List.getElem?_cons_succ, here]

/-- The oldest entry of a table without a free one. -/
theorem scanned_full {k : Nat} (full : scanned ip table = .full k) (nonempty : table ≠ [])
    : (∀ e ∈ table, e.ip ≠ ip ∧ e.ip ≠ 0)
      ∧ ∃ e, table[k]? = some e ∧ ∀ e' ∈ table, e.timestamp ≤ e'.timestamp := by
  cases table with
  | nil => contradiction
  | cons first entries =>
      obtain ⟨others, oldest⟩ := scanTable_full full
      refine ⟨others, ?_⟩
      rcases oldest with ⟨rfl, least⟩ | ⟨e, -, here, -, least⟩
      · exact ⟨first, rfl, least⟩
      · exact ⟨e, here, least⟩

theorem scanned_found {k : Nat} (found : scanned ip table = .found k)
    : ∃ before entry after, table = before ++ entry :: after ∧ k = before.length
      ∧ (entry.ip = ip ∨ entry.ip = 0) ∧ ∀ e ∈ before, e.ip ≠ ip ∧ e.ip ≠ 0 := by
  cases table with
  | nil => cases found
  | cons first entries =>
      obtain ⟨before, entry, after, eq, place, here, others⟩ := scanTable_found found
      exact ⟨before, entry, after, eq, by omega, here, others⟩

end Scan

--------------------------------------------------
-- The table as a map
--------------------------------------------------

/-- The used entries are the first ones, and no address has two. -/
structure Mapped (table : List (LinkLayerEntry Ip Ll)) : Prop where
  nonempty : table ≠ []
  used : table.Pairwise fun e e' => e.ip = 0 → e'.ip = 0
  distinct : table.Pairwise fun e e' => e.ip ≠ 0 → e.ip ≠ e'.ip

variable {table : List (LinkLayerEntry Ip Ll)} {a : LinkLayerAdd Ip Ll} {maxEntry : MaxEntry} {blank : Ll}

/-- A call takes the place of one entry: what was there was free, was of the same address, or is evicted. -/
theorem addLinkLayerAddress_split (mapped : Mapped table)
    : ∃ before old new after, table = before ++ old :: after
      ∧ addLinkLayerAddress table a = before ++ new :: after ∧ new.ip = a.ip ∧ new.linkLayer = a.linkLayer
      ∧ (∀ e ∈ before, e.ip ≠ a.ip ∧ e.ip ≠ 0)
      ∧ ((old.ip = a.ip ∨ old.ip = 0) ∧ evictedBy table a = none ∧ new.timestamp = a.now
          ∧ writeOf table a = ⟨before.length, false, a.now⟩
        ∨ old.ip ≠ a.ip ∧ old.ip ≠ 0 ∧ evictedBy table a = some old.ip ∧ new.timestamp = old.timestamp
          ∧ writeOf table a = ⟨before.length, true, a.now⟩ ∧ (∀ e ∈ after, e.ip ≠ a.ip ∧ e.ip ≠ 0)
          ∧ ∀ e ∈ table, old.timestamp ≤ e.timestamp) := by
  have modified (before : List (LinkLayerEntry Ip Ll)) (old : LinkLayerEntry Ip Ll) (after : List (LinkLayerEntry Ip Ll))
      (f : LinkLayerEntry Ip Ll → LinkLayerEntry Ip Ll)
      : (before ++ old :: after).modify before.length f = before ++ f old :: after := by
    simp [List.modify_eq_set_getElem?]
  unfold addLinkLayerAddress evictedBy writeOf
  cases scan : scanned a.ip table with
  | found i =>
      obtain ⟨before, old, after, rfl, rfl, here, others⟩ := scanned_found scan
      dsimp only
      refine ⟨before, old, _, after, rfl, modified .., ?_, rfl, others, .inl ⟨here, rfl, rfl, rfl⟩⟩
      dsimp only
      split
      · rfl
      · exact here.resolve_right ‹_›
  | full k =>
      obtain ⟨others, old, here, least⟩ := scanned_full scan mapped.nonempty
      obtain ⟨lt, eq⟩ := List.getElem?_eq_some_iff.mp here
      have split : table = table.take k ++ old :: table.drop (k + 1) := by
        rw [← eq, List.getElem_cons_drop, List.take_append_drop]
      have length : (table.take k).length = k := List.length_take_of_le (Nat.le_of_lt lt)
      dsimp only
      refine ⟨table.take k, old, { old with ip := a.ip, linkLayer := a.linkLayer }, table.drop (k + 1), split, ?_, rfl,
        rfl, fun e mem => others e (List.mem_of_mem_take mem), .inr ⟨?_, ?_, ?_, rfl, ?_, ?_, least⟩⟩
      · conv =>
          lhs
          rw [split]
        have place := modified (table.take k) old (table.drop (k + 1))
          fun entry => { entry with ip := a.ip, linkLayer := a.linkLayer }
        rwa [length] at place
      · exact (others old (List.mem_of_getElem? here)).1
      · exact (others old (List.mem_of_getElem? here)).2
      · rw [here]
        rfl
      · rw [length]
      · exact fun e mem => others e (List.mem_of_mem_drop mem)

omit [DecidableEq Ip] in
theorem mapped_empty : Mapped (emptyTable maxEntry blank : List (LinkLayerEntry Ip Ll)) where
  nonempty := List.ne_nil_of_length_pos (by rw [emptyTable, List.length_replicate]; exact maxEntry.pos)
  used := List.pairwise_replicate.mpr (.inr fun _ => rfl)
  distinct := List.pairwise_replicate.mpr (.inr fun nonnull => absurd rfl nonnull)

theorem Mapped.add (mapped : Mapped table) (nonnull : a.ip ≠ 0) : Mapped (addLinkLayerAddress table a) := by
  obtain ⟨before, old, new, after, rfl, added, ip, -, others, taken⟩ := addLinkLayerAddress_split (a := a) mapped
  rw [added]
  have used := mapped.used
  have distinct := mapped.distinct
  rw [List.pairwise_append, List.pairwise_cons] at used distinct
  obtain ⟨-, ⟨used_old, used_after⟩, -⟩ := used
  obtain ⟨distinct_before, ⟨distinct_old, distinct_after⟩, between⟩ := distinct
  have behind : ∀ e ∈ after, a.ip ≠ e.ip := by
    intro e mem same
    rcases taken with ⟨old_same | old_free, -⟩ | ⟨-, -, -, -, -, others_after, -⟩
    · exact distinct_old e mem (old_same ▸ nonnull) (old_same.trans same)
    · exact nonnull (same.trans (used_old e mem old_free))
    · exact (others_after e mem).1 same.symm
  refine ⟨by simp, ?_, ?_⟩
  · rw [List.pairwise_append, List.pairwise_cons]
    refine ⟨?_, ⟨fun e mem free => absurd (ip ▸ free) nonnull, used_after⟩, fun e mem _ _ free => ?_⟩
    · exact List.pairwise_of_forall_mem_list fun e mem _ _ free => absurd free (others e mem).2
    · exact absurd free (others e mem).2
  · rw [List.pairwise_append, List.pairwise_cons]
    refine ⟨distinct_before, ⟨fun e mem _ => ip ▸ behind e mem, distinct_after⟩, fun e mem e' mem' used => ?_⟩
    rcases List.mem_cons.mp mem' with rfl | mem'
    · exact ip ▸ (others e mem).1
    · exact between e mem e' (List.mem_cons_of_mem _ mem') used

/-- The used entries form a prefix of the table, by induction on it. -/
theorem Mapped.used_prefix (mapped : Mapped table)
    : ∃ n, (∀ e ∈ table.take n, e.ip ≠ 0) ∧ ∀ e ∈ table.drop n, e.ip = 0 := by
  have used := mapped.used
  clear mapped
  induction table with
  | nil => exact ⟨0, by simp, by simp⟩
  | cons e entries ih =>
      obtain ⟨behind, rest⟩ := List.pairwise_cons.mp used
      by_cases free : e.ip = 0
      · exact ⟨0, by simp, List.forall_mem_cons.mpr ⟨free, fun e' mem => behind e' mem free⟩⟩
      · obtain ⟨n, front, back⟩ := ih rest
        exact ⟨n + 1, List.forall_mem_cons.mpr ⟨free, front⟩, back⟩

/-- A call stores an address and may remove another one. -/
theorem getLinkLayerAddress_add (mapped : Mapped table) {ip : Ip} (ip_nonnull : ip ≠ 0)
    : getLinkLayerAddress (addLinkLayerAddress table a) ip
      = if ip = a.ip then some a.linkLayer
        else if evictedBy table a = some ip then none
        else getLinkLayerAddress table ip := by
  obtain ⟨before, old, new, after, rfl, added, new_ip, new_ll, others, taken⟩ := addLinkLayerAddress_split (a := a) mapped
  rw [added, getLinkLayerAddress, getLinkLayerAddress, List.find?_append, List.find?_append, List.find?_cons,
    List.find?_cons]
  by_cases here : ip = a.ip
  · have missed : before.find? (fun e => e.ip = ip) = none :=
      List.find?_eq_none.mpr fun e mem => by simpa [here] using (others e mem).1
    rw [if_pos here, missed, new_ip]
    simp [here, new_ll]
  · have new_other : ¬ new.ip = ip := fun eq => here (eq.symm.trans new_ip)
    rw [if_neg here]
    by_cases gone : old.ip = ip
    · have evicted : evictedBy (before ++ old :: after) a = some ip := by
        rcases taken with ⟨same | free, -⟩ | ⟨-, -, evicted, -⟩
        · exact absurd (gone.symm.trans same) here
        · exact absurd (gone.symm.trans free) ip_nonnull
        · rw [evicted, gone]
      have distinct := mapped.distinct
      rw [List.pairwise_append, List.pairwise_cons] at distinct
      obtain ⟨-, ⟨distinct_old, -⟩, between⟩ := distinct
      have missed : before.find? (fun e => e.ip = ip) = none := by
        refine List.find?_eq_none.mpr fun e mem => ?_
        have apart := between e mem old List.mem_cons_self (others e mem).2
        simpa [gone] using apart
      have missed_after : after.find? (fun e => e.ip = ip) = none := by
        refine List.find?_eq_none.mpr fun e mem => ?_
        have apart := distinct_old e mem (gone ▸ ip_nonnull)
        rw [gone] at apart
        simpa using apart.symm
      rw [if_pos evicted, missed, missed_after]
      simp [new_other]
    · have kept : ¬ evictedBy (before ++ old :: after) a = some ip := by
        rcases taken with ⟨-, evicted, -⟩ | ⟨-, -, evicted, -⟩
        · rw [evicted]
          nofun
        · rw [evicted]
          exact fun eq => gone (Option.some.inj eq)
      rw [if_neg kept]
      simp [new_other, gone]

--------------------------------------------------
-- Histories
--------------------------------------------------

/-- The table after some calls. -/
def tableAfter (maxEntry : MaxEntry) (blank : Ll) (adds : List (LinkLayerAdd Ip Ll)) : List (LinkLayerEntry Ip Ll) :=
  adds.foldl addLinkLayerAddress (emptyTable maxEntry blank)

theorem tableAfter_concat (adds : List (LinkLayerAdd Ip Ll)) (a : LinkLayerAdd Ip Ll)
    : tableAfter maxEntry blank (adds ++ [a]) = addLinkLayerAddress (tableAfter maxEntry blank adds) a := by
  rw [tableAfter, List.foldl_append]
  rfl

/-- The last call for the address gave this link-layer address, and none behind it evicted the entry. -/
def Remembered (maxEntry : MaxEntry) (blank : Ll) (adds : List (LinkLayerAdd Ip Ll)) (ip : Ip) (linkLayer : Ll)
    : Prop :=
  ∃ before a after, adds = before ++ a :: after ∧ a.ip = ip ∧ a.linkLayer = linkLayer
    ∧ ∀ mid b rest, after = mid ++ b :: rest
      → b.ip ≠ ip ∧ evictedBy (tableAfter maxEntry blank (before ++ a :: mid)) b ≠ some ip

theorem mapped_after {adds : List (LinkLayerAdd Ip Ll)} (nonnull : ∀ a ∈ adds, a.ip ≠ 0)
    : Mapped (tableAfter maxEntry blank adds) := by
  induction adds using List.reverseRecOn with
  | nil => exact mapped_empty
  | append_singleton adds a ih =>
      rw [tableAfter_concat]
      exact (ih fun b mem => nonnull b (List.mem_append_left _ mem)).add (nonnull a (by simp))

/-- What is remembered after one more call. -/
theorem remembered_concat {adds : List (LinkLayerAdd Ip Ll)} {ip : Ip} {linkLayer : Ll}
    : Remembered maxEntry blank (adds ++ [a]) ip linkLayer
      ↔ if ip = a.ip then a.linkLayer = linkLayer
        else evictedBy (tableAfter maxEntry blank adds) a ≠ some ip ∧ Remembered maxEntry blank adds ip linkLayer := by
  constructor
  · rintro ⟨before, b, after, eq, rfl, rfl, kept⟩
    rcases List.eq_nil_or_concat after with rfl | ⟨mid, c, rfl⟩
    · obtain ⟨-, same⟩ := List.append_inj' eq rfl
      obtain rfl : a = b := List.singleton_inj.mp same
      rw [if_pos rfl]
    · have parts : adds = before ++ b :: mid ∧ [a] = [c] := List.append_inj' (by simpa using eq) rfl
      obtain ⟨rfl, same⟩ := parts
      obtain rfl : a = c := List.singleton_inj.mp same
      obtain ⟨other, evicted⟩ := kept mid a [] (by simp)
      rw [if_neg other.symm]
      exact ⟨evicted, before, b, mid, rfl, rfl, rfl, fun mid' c rest eq => kept mid' c (rest ++ [a]) (by simp [eq])⟩
  · split
    · rename_i here
      exact fun same => ⟨adds, a, [], rfl, here.symm, same, by simp⟩
    · rename_i other
      rintro ⟨evicted, before, b, after, rfl, ip_eq, ll_eq, kept⟩
      refine ⟨before, b, after ++ [a], by simp, ip_eq, ll_eq, fun mid c rest eq => ?_⟩
      rcases List.eq_nil_or_concat rest with rfl | ⟨rest, d, rfl⟩
      · obtain ⟨rfl, same⟩ := List.append_inj' eq rfl
        obtain rfl : a = c := List.singleton_inj.mp same
        exact ⟨Ne.symm other, evicted⟩
      · have parts : after = mid ++ c :: rest ∧ [a] = [d] := List.append_inj' (by simpa using eq) rfl
        exact kept mid c rest parts.1

/-- After any calls with addresses that are not null, no address has two entries, the used entries form a prefix, and
an address is found exactly when it was added and not evicted since, with what the last call for it gave.
-/
theorem link_layer_cache_maps (maxEntry : MaxEntry) (blank : Ll) (adds : List (LinkLayerAdd Ip Ll))
    (nonnull : ∀ a ∈ adds, a.ip ≠ 0)
    : (tableAfter maxEntry blank adds).Pairwise (fun e e' => e.ip ≠ 0 → e.ip ≠ e'.ip)
      ∧ (∃ n, (∀ e ∈ (tableAfter maxEntry blank adds).take n, e.ip ≠ 0)
        ∧ ∀ e ∈ (tableAfter maxEntry blank adds).drop n, e.ip = 0)
      ∧ ∀ ip, ip ≠ 0 → ∀ linkLayer, getLinkLayerAddress (tableAfter maxEntry blank adds) ip = some linkLayer
        ↔ Remembered maxEntry blank adds ip linkLayer := by
  have mapped : Mapped (tableAfter maxEntry blank adds) := mapped_after nonnull
  refine ⟨mapped.distinct, mapped.used_prefix, fun ip ip_nonnull linkLayer => ?_⟩
  clear mapped
  induction adds using List.reverseRecOn with
  | nil =>
      have empty : getLinkLayerAddress (tableAfter maxEntry blank []) ip = none := by
        have missed : (emptyTable maxEntry blank).find? (fun e => e.ip = ip) = none := by
          refine List.find?_eq_none.mpr fun e mem => ?_
          rw [List.eq_of_mem_replicate mem]
          simpa using ip_nonnull.symm
        rw [getLinkLayerAddress, tableAfter, List.foldl_nil, missed, Option.map_none]
      rw [empty]
      refine iff_of_false nofun ?_
      rintro ⟨before, a, after, eq, -⟩
      simp at eq
  | append_singleton adds a ih =>
      have nonnull_adds : ∀ b ∈ adds, b.ip ≠ 0 := fun b mem => nonnull b (List.mem_append_left _ mem)
      rw [tableAfter_concat, remembered_concat,
        getLinkLayerAddress_add (mapped_after nonnull_adds) ip_nonnull]
      split
      · exact Option.some_inj
      · split
        · rename_i evicted
          exact iff_of_false nofun fun kept => kept.1 evicted
        · rename_i kept
          rw [ih nonnull_adds]
          exact (and_iff_right kept).symm

/-- Two entries: the third address evicts the first one, which is added again in the place of the third. -/
theorem link_layer_cache_maps_two
    : let adds : List (LinkLayerAdd UInt32 Nat) := [⟨1, 10, 1⟩, ⟨2, 20, 2⟩, ⟨3, 30, 3⟩, ⟨1, 11, 4⟩]
      let maxEntry : MaxEntry := ⟨2, by decide, by decide⟩
      (tableAfter maxEntry 0 adds).Pairwise (fun e e' => e.ip ≠ 0 → e.ip ≠ e'.ip)
      ∧ (∃ n, (∀ e ∈ (tableAfter maxEntry 0 adds).take n, e.ip ≠ 0)
        ∧ ∀ e ∈ (tableAfter maxEntry 0 adds).drop n, e.ip = 0)
      ∧ ∀ ip, ip ≠ 0 → ∀ linkLayer, getLinkLayerAddress (tableAfter maxEntry 0 adds) ip = some linkLayer
        ↔ Remembered maxEntry 0 adds ip linkLayer :=
  link_layer_cache_maps _ 0 [⟨1, 10, 1⟩, ⟨2, 20, 2⟩, ⟨3, 30, 3⟩, ⟨1, 11, 4⟩] (by decide)

--------------------------------------------------
-- The oldest entry
--------------------------------------------------

/-- What some calls write, in order. -/
def writesFrom (table : List (LinkLayerEntry Ip Ll)) : List (LinkLayerAdd Ip Ll) → List LinkLayerWrite
  | [] => []
  | a :: adds => writeOf table a :: writesFrom (addLinkLayerAddress table a) adds

def writesOf (maxEntry : MaxEntry) (blank : Ll) (adds : List (LinkLayerAdd Ip Ll)) : List LinkLayerWrite :=
  writesFrom (emptyTable maxEntry blank) adds

/-- The values of `NOW`. -/
def nows (writes : List LinkLayerWrite) : List UInt32 :=
  (writes.filter fun w => !w.replaced).map LinkLayerWrite.now

/-- When an entry was written last: the number of writes up to this one, 0 if there was none. -/
def lastWrite (writes : List LinkLayerWrite) (i : Nat) : Nat :=
  (writes.reverse.dropWhile fun w => w.entry ≠ i).length

/-- The last write of an entry replaced another address. -/
def LastReplaced (writes : List LinkLayerWrite) (i : Nat) : Prop :=
  ((writes.reverse.find? fun w => w.entry = i).any LinkLayerWrite.replaced) = true

instance (writes : List LinkLayerWrite) (i : Nat) : Decidable (LastReplaced writes i) := inferInstanceAs (Decidable (_ = _))

/-- All other entries were written after this one. -/
def LeastRecent (maxEntry : MaxEntry) (writes : List LinkLayerWrite) (i : Nat) : Prop :=
  ∀ j < maxEntry.val, j ≠ i → lastWrite writes i < lastWrite writes j

instance (maxEntry : MaxEntry) (writes : List LinkLayerWrite) (i : Nat) : Decidable (LeastRecent maxEntry writes i) :=
  inferInstanceAs (Decidable (∀ j < maxEntry.val, j ≠ i → _))

section Oldest

variable {writes : List LinkLayerWrite} {w : LinkLayerWrite} {i : Nat}

theorem writesFrom_concat (table : List (LinkLayerEntry Ip Ll)) (adds : List (LinkLayerAdd Ip Ll)) (a : LinkLayerAdd Ip Ll)
    : writesFrom table (adds ++ [a]) = writesFrom table adds ++ [writeOf (adds.foldl addLinkLayerAddress table) a] := by
  induction adds generalizing table with
  | nil => rfl
  | cons b adds ih => rw [List.cons_append, writesFrom, ih, writesFrom, List.foldl_cons, List.cons_append]

theorem writesOf_concat (adds : List (LinkLayerAdd Ip Ll)) (a : LinkLayerAdd Ip Ll)
    : writesOf maxEntry blank (adds ++ [a])
      = writesOf maxEntry blank adds ++ [writeOf (tableAfter maxEntry blank adds) a] :=
  writesFrom_concat ..

theorem lastWrite_concat (writes : List LinkLayerWrite) (w : LinkLayerWrite) (i : Nat)
    : lastWrite (writes ++ [w]) i = if w.entry = i then writes.length + 1 else lastWrite writes i := by
  rw [lastWrite, List.reverse_append, List.reverse_singleton, List.singleton_append, List.dropWhile_cons]
  by_cases here : w.entry = i
  · simp [here]
  · simp [here, lastWrite]

theorem lastWrite_le (writes : List LinkLayerWrite) (i : Nat) : lastWrite writes i ≤ writes.length := by
  rw [lastWrite, ← @List.length_reverse _ writes]
  exact (List.dropWhile_sublist _).length_le

theorem lastReplaced_concat
    : LastReplaced (writes ++ [w]) i ↔ if w.entry = i then w.replaced = true else LastReplaced writes i := by
  rw [LastReplaced, List.reverse_append, List.reverse_singleton, List.singleton_append, List.find?_cons]
  by_cases here : w.entry = i
  · simp [here]
  · rw [if_neg here, decide_eq_false here]
    rfl

theorem nows_concat (writes : List LinkLayerWrite) (w : LinkLayerWrite)
    : nows (writes ++ [w]) = nows writes ++ if w.replaced then [] else [w.now] := by
  rw [nows, List.filter_append, List.map_append, ← nows]
  cases eq : w.replaced <;> simp [eq]

/-- A timestamp tells when its entry was written last, unless another address was replaced there: it is then older than
all the others, in a table without a free entry.
-/
structure Dated (table : List (LinkLayerEntry Ip Ll)) (writes : List LinkLayerWrite) : Prop where
  evaluated : ∀ (i : Nat) e, table[i]? = some e → e.ip ≠ 0 → e.timestamp ∈ nows writes
  ordered : ∀ (i j : Nat) e e', table[i]? = some e → table[j]? = some e' → i ≠ j → e.ip ≠ 0 → e'.ip ≠ 0 →
    ¬ LastReplaced writes i → ¬ LastReplaced writes j →
    e.timestamp < e'.timestamp ∧ lastWrite writes i < lastWrite writes j
      ∨ e'.timestamp < e.timestamp ∧ lastWrite writes j < lastWrite writes i
  filled : ∀ (i : Nat) e, table[i]? = some e → LastReplaced writes i → ∀ e' ∈ table, e'.ip ≠ 0
  replaced : ∀ (i : Nat) e, table[i]? = some e → LastReplaced writes i → ∀ (j : Nat) e', table[j]? = some e' → j ≠ i →
    e.timestamp < e'.timestamp ∧ ¬ LastReplaced writes j

omit [DecidableEq Ip] in
theorem dated_empty : Dated (emptyTable maxEntry blank : List (LinkLayerEntry Ip Ll)) [] where
  evaluated i e here used := by
    rw [emptyTable, List.getElem?_replicate] at here
    split at here
    · cases here
      exact absurd rfl used
    · cases here
  ordered i j e e' here _ _ used := by
    rw [emptyTable, List.getElem?_replicate] at here
    split at here
    · cases here
      exact absurd rfl used
    · cases here
  filled _ _ _ last := absurd last nofun
  replaced _ _ _ last := absurd last nofun

/-- The entries after a call, where the entry that it writes is another one. -/
theorem getElem?_addLinkLayerAddress (mapped : Mapped table) (a : LinkLayerAdd Ip Ll)
    : ∃ old new, table[(writeOf table a).entry]? = some old ∧ new.ip = a.ip
      ∧ (∀ j, (addLinkLayerAddress table a)[j]? = if j = (writeOf table a).entry then some new else table[j]?)
      ∧ ((writeOf table a).replaced = false ∧ (writeOf table a).now = a.now ∧ new.timestamp = a.now
        ∨ (writeOf table a).replaced = true ∧ new.timestamp = old.timestamp ∧ (∀ e ∈ table, e.ip ≠ 0)
          ∧ ∀ e ∈ table, old.timestamp ≤ e.timestamp) := by
  obtain ⟨before, old, new, after, rfl, added, ip, -, others, taken⟩ := addLinkLayerAddress_split (a := a) mapped
  have place : (writeOf (before ++ old :: after) a).entry = before.length := by
    rcases taken with ⟨-, -, -, write⟩ | ⟨-, -, -, -, write, -⟩ <;> rw [write]
  refine ⟨old, new, by rw [place]; simp, ip, fun j => ?_, ?_⟩
  · rw [added, place]
    rcases Nat.lt_trichotomy j before.length with lt | rfl | gt
    · rw [if_neg (Nat.ne_of_lt lt), List.getElem?_append_left lt, List.getElem?_append_left lt]
    · simp
    · obtain ⟨d, rfl⟩ := Nat.exists_eq_add_of_lt gt
      rw [if_neg (by omega), List.getElem?_append_right (by omega), List.getElem?_append_right (by omega),
        show before.length + d + 1 - before.length = d + 1 by omega, List.getElem?_cons_succ, List.getElem?_cons_succ]
  · rcases taken with ⟨-, -, timestamp, write⟩ | ⟨-, used, -, timestamp, write, others_after, least⟩
    · exact .inl ⟨by rw [write], by rw [write], timestamp⟩
    · refine .inr ⟨by rw [write], timestamp, fun e mem => ?_, least⟩
      rcases List.mem_append.mp mem with mem | mem
      · exact (others e mem).2
      · rcases List.mem_cons.mp mem with rfl | mem
        · exact used
        · exact (others_after e mem).2

omit [DecidableEq Ip] in
/-- In a table without a free entry the oldest timestamp is older than all the others. -/
theorem Dated.oldest (dated : Dated table writes) {k : Nat} {old : LinkLayerEntry Ip Ll} (here : table[k]? = some old)
    (used : ∀ e ∈ table, e.ip ≠ 0) (least : ∀ e ∈ table, old.timestamp ≤ e.timestamp) {j : Nat}
    {e : LinkLayerEntry Ip Ll} (there : table[j]? = some e) (other : j ≠ k)
    : old.timestamp < e.timestamp ∧ ¬ LastReplaced writes j := by
  have not_older {i : Nat} {e' : LinkLayerEntry Ip Ll} (at_i : table[i]? = some e')
      : ¬ e'.timestamp < old.timestamp :=
    UInt32.not_lt.mpr (least e' (List.mem_of_getElem? at_i))
  have stale : ¬ LastReplaced writes j := fun last =>
    not_older there (dated.replaced j e there last k old here other.symm).1
  by_cases last : LastReplaced writes k
  · exact ⟨(dated.replaced k old here last j e there other).1, stale⟩
  · rcases dated.ordered k j old e here there other.symm (used _ (List.mem_of_getElem? here))
      (used _ (List.mem_of_getElem? there)) last stale with ⟨lt, -⟩ | ⟨lt, -⟩
    · exact ⟨lt, stale⟩
    · exact absurd lt (not_older there)

theorem Dated.add (dated : Dated table writes) (mapped : Mapped table) (nonnull : a.ip ≠ 0)
    (increasing : (nows (writes ++ [writeOf table a])).Pairwise (· < ·))
    : Dated (addLinkLayerAddress table a) (writes ++ [writeOf table a]) := by
  obtain ⟨old, new, here, new_ip, entries, written⟩ := getElem?_addLinkLayerAddress mapped a
  generalize writeOf table a = w at here entries written increasing ⊢
  have other {j : Nat} {e : LinkLayerEntry Ip Ll} (at_j : (addLinkLayerAddress table a)[j]? = some e)
      : j = w.entry ∧ e = new ∨ j ≠ w.entry ∧ table[j]? = some e := by
    rw [entries] at at_j
    split at at_j
    · exact .inl ⟨‹_›, (Option.some.inj at_j).symm⟩
    · exact .inr ⟨‹_›, at_j⟩
  have newest {j : Nat} (ne : j ≠ w.entry) : lastWrite writes j < writes.length + 1 :=
    Nat.lt_succ_of_le (lastWrite_le writes j)
  have stays {i : Nat} {e : LinkLayerEntry Ip Ll} (found : w.replaced ≠ true)
      (at_i : (addLinkLayerAddress table a)[i]? = some e) (last : LastReplaced (writes ++ [w]) i)
      : i ≠ w.entry ∧ table[i]? = some e ∧ LastReplaced writes i := by
    rw [lastReplaced_concat] at last
    split at last
    · exact absurd last found
    · rename_i ne
      obtain ⟨-, at_i⟩ := (other at_i).resolve_left fun same => ne same.1.symm
      exact ⟨Ne.symm ne, at_i, last⟩
  have filled (used : ∀ e ∈ table, e.ip ≠ 0) : ∀ e ∈ addLinkLayerAddress table a, e.ip ≠ 0 := by
    intro e mem
    obtain ⟨j, at_j⟩ := List.mem_iff_getElem?.mp mem
    rcases other at_j with ⟨-, rfl⟩ | ⟨-, at_j⟩
    · exact new_ip ▸ nonnull
    · exact used e (List.mem_of_getElem? at_j)
  rcases written with ⟨found, now, timestamp⟩ | ⟨replaced, timestamp, used, least⟩
  · -- the timestamp is later than all before
    rw [nows_concat, if_neg (by simp [found]), now] at increasing
    have later : ∀ stamp ∈ nows writes, stamp < new.timestamp := by
      rw [timestamp]
      exact fun stamp mem => (List.pairwise_append.mp increasing).2.2 stamp mem a.now (List.mem_singleton_self _)
    refine ⟨fun j e at_j used => ?_, fun i j e e' at_i at_j ne used used' last last' => ?_, fun i e at_i last => ?_,
      fun i e at_i last j e' at_j ne => ?_⟩
    · rw [nows_concat, if_neg (by simp [found]), now]
      rcases other at_j with ⟨-, rfl⟩ | ⟨-, at_j⟩
      · rw [timestamp]
        simp
      · exact List.mem_append_left _ (dated.evaluated j e at_j used)
    · rw [lastReplaced_concat] at last last'
      rw [lastWrite_concat, lastWrite_concat]
      rcases other at_i with ⟨rfl, rfl⟩ | ⟨ne_i, at_i⟩
      · rcases other at_j with ⟨rfl, -⟩ | ⟨ne_j, at_j⟩
        · exact absurd rfl ne
        · rw [if_pos rfl, if_neg ne_j.symm]
          exact .inr ⟨later _ (dated.evaluated j e' at_j used'), newest ne_j⟩
      · rw [if_neg ne_i.symm] at last ⊢
        rcases other at_j with ⟨rfl, rfl⟩ | ⟨ne_j, at_j⟩
        · rw [if_pos rfl]
          exact .inl ⟨later _ (dated.evaluated i e at_i used), newest ne_i⟩
        · rw [if_neg ne_j.symm] at last' ⊢
          exact dated.ordered i j e e' at_i at_j ne used used' last last'
    · obtain ⟨ne_i, at_i, last⟩ := stays (by simp [found]) at_i last
      exact filled fun e mem => dated.filled i _ at_i last e mem
    · obtain ⟨ne_i, at_i, last⟩ := stays (by simp [found]) at_i last
      rw [lastReplaced_concat]
      rcases other at_j with ⟨rfl, rfl⟩ | ⟨ne_j, at_j⟩
      · rw [if_pos rfl, found]
        have used := dated.filled i e at_i last e (List.mem_of_getElem? at_i)
        exact ⟨later _ (dated.evaluated i e at_i used), Bool.false_ne_true⟩
      · rw [if_neg ne_j.symm]
        exact dated.replaced i e at_i last j e' at_j ne
  · -- the entry stays the oldest, and no other one was replaced last
    have oldest {j : Nat} {e : LinkLayerEntry Ip Ll} (at_j : table[j]? = some e) (ne : j ≠ w.entry) :=
      dated.oldest here used least at_j ne
    have used_new : new.timestamp ∈ nows writes := by
      rw [timestamp]
      exact dated.evaluated _ old here (used old (List.mem_of_getElem? here))
    refine ⟨fun j e at_j used => ?_, fun i j e e' at_i at_j ne used used' last last' => ?_, fun i e at_i last => ?_,
      fun i e at_i last j e' at_j ne => ?_⟩
    · rw [nows_concat, if_pos replaced, List.append_nil]
      rcases other at_j with ⟨-, rfl⟩ | ⟨-, at_j⟩
      · exact used_new
      · exact dated.evaluated j e at_j used
    · rw [lastReplaced_concat] at last last'
      rw [lastWrite_concat, lastWrite_concat]
      have ne_i : i ≠ w.entry := fun eq => by
        rw [if_pos eq.symm] at last
        exact last replaced
      have ne_j : j ≠ w.entry := fun eq => by
        rw [if_pos eq.symm] at last'
        exact last' replaced
      rw [if_neg ne_i.symm] at last ⊢
      rw [if_neg ne_j.symm] at last' ⊢
      obtain ⟨-, at_i⟩ := (other at_i).resolve_left fun same => ne_i same.1
      obtain ⟨-, at_j⟩ := (other at_j).resolve_left fun same => ne_j same.1
      exact dated.ordered i j e e' at_i at_j ne used used' last last'
    · exact filled used
    · have eq_i : i = w.entry := by
        by_contra ne_i
        obtain ⟨-, at_i⟩ := (other at_i).resolve_left fun same => ne_i same.1
        rw [lastReplaced_concat, if_neg (Ne.symm ne_i)] at last
        exact (oldest at_i ne_i).2 last
      subst eq_i
      obtain ⟨-, rfl⟩ := (other at_i).resolve_right fun away => away.1 rfl
      obtain ⟨ne_j, at_j⟩ := (other at_j).resolve_left fun same => ne same.1
      rw [timestamp, lastReplaced_concat, if_neg ne_j.symm]
      exact oldest at_j ne_j

/-- The timestamps after any calls, when the values of `NOW` increase strictly. -/
theorem dated_after {adds : List (LinkLayerAdd Ip Ll)} (nonnull : ∀ b ∈ adds, b.ip ≠ 0)
    (increasing : (nows (writesOf maxEntry blank adds)).Pairwise (· < ·))
    : Dated (tableAfter maxEntry blank adds) (writesOf maxEntry blank adds) := by
  induction adds using List.reverseRecOn with
  | nil => exact dated_empty
  | append_singleton adds a ih =>
      have nonnull_adds : ∀ b ∈ adds, b.ip ≠ 0 := fun b mem => nonnull b (List.mem_append_left _ mem)
      rw [writesOf_concat] at increasing ⊢
      rw [tableAfter_concat]
      have before : (nows (writesOf maxEntry blank adds)).Pairwise (· < ·) := by
        rw [nows_concat, List.pairwise_append] at increasing
        exact increasing.1
      exact (ih nonnull_adds before).add (mapped_after nonnull_adds) (nonnull a (by simp)) increasing

theorem length_tableAfter (adds : List (LinkLayerAdd Ip Ll)) : (tableAfter maxEntry blank adds).length = maxEntry.val := by
  induction adds using List.reverseRecOn with
  | nil => exact List.length_replicate
  | append_singleton adds a ih =>
      rw [tableAfter_concat, ← ih]
      unfold addLinkLayerAddress
      split <;> exact List.length_modify ..

/-- When a new address arrives and all entries are used, the entry that it replaces is the least recent one, if no
entry whose last write replaced another address is more recent than some other entry, and only then.
-/
theorem replaces_oldest_iff (maxEntry : MaxEntry) (blank : Ll) (adds : List (LinkLayerAdd Ip Ll)) (a : LinkLayerAdd Ip Ll)
    (nonnull : ∀ b ∈ adds, b.ip ≠ 0) (increasing : (nows (writesOf maxEntry blank adds)).Pairwise (· < ·))
    (arrives : ∀ e ∈ tableAfter maxEntry blank adds, e.ip ≠ a.ip)
    (used : ∀ e ∈ tableAfter maxEntry blank adds, e.ip ≠ 0)
    : (writeOf (tableAfter maxEntry blank adds) a).replaced = true
      ∧ (LeastRecent maxEntry (writesOf maxEntry blank adds) (writeOf (tableAfter maxEntry blank adds) a).entry
        ↔ ∀ i < maxEntry.val, LastReplaced (writesOf maxEntry blank adds) i →
            LeastRecent maxEntry (writesOf maxEntry blank adds) i) := by
  have mapped : Mapped (tableAfter maxEntry blank adds) := mapped_after nonnull
  have dated := dated_after nonnull increasing
  have length : (tableAfter maxEntry blank adds).length = maxEntry.val := length_tableAfter adds
  obtain ⟨before, old, new, after, eq, -, -, -, -, taken⟩ := addLinkLayerAddress_split (a := a) mapped
  have old_mem : old ∈ tableAfter maxEntry blank adds := by rw [eq]; simp
  rcases taken with ⟨same | free, -⟩ | ⟨-, -, -, -, write, -, least⟩
  · exact absurd same (arrives old old_mem)
  · exact absurd free (used old old_mem)
  · rw [write]
    generalize tableAfter maxEntry blank adds = table at *
    generalize writesOf maxEntry blank adds = writes at *
    have here : table[before.length]? = some old := by rw [eq]; simp
    have inside : before.length < table.length := (List.getElem?_eq_some_iff.mp here).1
    have entry {j : Nat} (lt : j < maxEntry.val) : ∃ e, table[j]? = some e :=
      ⟨_, List.getElem?_eq_getElem (by omega)⟩
    refine ⟨rfl, fun oldest i lt last => ?_, fun condition => ?_⟩
    · -- only the oldest entry can have been replaced last
      have same : i = before.length := by
        by_contra other
        obtain ⟨e, at_i⟩ := entry lt
        exact (dated.oldest here used least at_i other).2 last
      rw [same]
      exact oldest
    · by_cases last : LastReplaced writes before.length
      · exact condition before.length (by omega) last
      · intro j lt other
        obtain ⟨e, at_j⟩ := entry lt
        obtain ⟨older, last'⟩ := dated.oldest here used least at_j other
        rcases dated.ordered before.length j old e here at_j other.symm (used old old_mem)
          (used e (List.mem_of_getElem? at_j)) last last' with ⟨-, lt⟩ | ⟨newer, -⟩
        · exact lt
        · exact absurd older (UInt32.lt_asymm newer)

/-- Two entries: the second replacement takes the address that came last. -/
theorem replaces_newest_two
    : let adds : List (LinkLayerAdd UInt32 Nat) := [⟨1, 10, 1⟩, ⟨2, 20, 2⟩, ⟨3, 30, 3⟩]
      let maxEntry : MaxEntry := ⟨2, by decide, by decide⟩
      (nows (writesOf maxEntry 0 adds)).Pairwise (· < ·)
      ∧ (∀ e ∈ tableAfter maxEntry 0 adds, e.ip ≠ 4 ∧ e.ip ≠ 0)
      ∧ evictedBy (tableAfter maxEntry 0 adds) ⟨4, 40, 4⟩ = some 3
      ∧ ¬ LeastRecent maxEntry (writesOf maxEntry 0 adds) (writeOf (tableAfter maxEntry 0 adds) ⟨4, 40, 4⟩).entry := by
  decide

/-- Two entries: the replaced address is added again before the next one arrives. -/
theorem replaces_oldest_iff_two
    : let adds : List (LinkLayerAdd UInt32 Nat) := [⟨1, 10, 1⟩, ⟨2, 20, 2⟩, ⟨3, 30, 3⟩, ⟨3, 30, 4⟩]
      let maxEntry : MaxEntry := ⟨2, by decide, by decide⟩
      (writeOf (tableAfter maxEntry 0 adds) ⟨4, 40, 5⟩).replaced = true
      ∧ (LeastRecent maxEntry (writesOf maxEntry 0 adds) (writeOf (tableAfter maxEntry 0 adds) ⟨4, 40, 5⟩).entry
        ↔ ∀ i < maxEntry.val, LastReplaced (writesOf maxEntry 0 adds) i →
            LeastRecent maxEntry (writesOf maxEntry 0 adds) i) :=
  replaces_oldest_iff _ 0 [⟨1, 10, 1⟩, ⟨2, 20, 2⟩, ⟨3, 30, 3⟩, ⟨3, 30, 4⟩] ⟨4, 40, 5⟩ (by decide) (by decide)
    (by decide) (by decide)

end Oldest

end Smews.Core
