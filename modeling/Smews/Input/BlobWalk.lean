import Smews.Input.Blobs
import Smews.Tools.TernaryTree

/-! The walk of the parser through a generated array follows the ternary tree that the array stands for.
-/

namespace Smews.Input

open Smews.Tools

--------------------------------------------------
-- The layout of a node
--------------------------------------------------

/-- The flags, the offsets and the subtrees of a node. -/
def links (inf eq sup : Ternary) : List UInt8 :=
  let returned :=
    (if inf.isNode then [blobRec inf] else [])
      ++ (if eq.isNode then [blobRec eq] else [])
      ++ (if sup.isNode then [blobRec sup] else [])
  (if flags inf eq sup = 2 then []
    else flags inf eq sup :: returned.dropLast.map fun blob => UInt8.ofNat blob.length)
    ++ returned.flatten

/-- The byte of a reference. -/
def refByte (ref : Option Nat) : List UInt8 :=
  match ref with
  | none => []
  | some ref => [128 + UInt8.ofNat ref]

theorem blobRec_node (string : Symbol) (ref : Option Nat) (inf eq sup : Ternary)
    : blobRec (.node string ref inf eq sup) = string ++ (refByte ref ++ links inf eq sup) := by
  rw [blobRec.eq_def, links]
  simp only [List.append_assoc]
  cases ref <;> rfl

@[simp] theorem blobRec_absent : blobRec .absent = [] := by rw [blobRec]

/-- The offsets behind the flags of a node fit a byte, summed as the walk sums them. -/
structure Offsets (inf eq sup : Ternary) : Prop where
  eq_offset : inf ≠ .absent → eq ≠ .absent → 2 + (blobRec inf).length < 256
  sup_offset : sup ≠ .absent → eq = .absent → 2 + (blobRec inf).length < 256
  sup_offset_eq : sup ≠ .absent → eq ≠ .absent → 3 + (blobRec inf).length + (blobRec eq).length < 256

/-- What the walk needs of a tree: characters that are neither flags nor references, but for the mark 255
at the end of a symbol, and offsets that fit a byte when they are summed.
-/
inductive Walkable : Ternary → Prop
  | absent : Walkable .absent
  | node {s : Symbol} {c : UInt8} {ref : Option Nat} {inf eq sup : Ternary} (inf_walkable : Walkable inf)
    (eq_walkable : Walkable eq) (sup_walkable : Walkable sup) (left : sup ≠ .absent → inf ≠ .absent)
    (plain : ∀ x ∈ s, 32 ≤ x ∧ x < 128) (last : 32 ≤ c) (marked : 128 ≤ c → ref ≠ none)
    (small : ∀ r ∈ ref, r < 128)
    (offsets : Offsets inf eq sup)
    : Walkable (.node (s ++ [c]) ref inf eq sup)

--------------------------------------------------
-- Places
--------------------------------------------------

/-- A place in the array: at the first character of a node, or at the reference of one. -/
inductive Place
  | tree (t : Ternary)
  | ref (ref : Nat) (inf eq sup : Ternary)

def Place.bytes : Place → List UInt8
  | .tree t => blobRec t
  | .ref r inf eq sup => (128 + UInt8.ofNat r) :: links inf eq sup

/-- The place behind the last character of a node. -/
def behind (ref : Option Nat) (inf eq sup : Ternary) : Option Place :=
  match ref, eq with
  | some ref, eq => some (.ref ref inf eq sup)
  | none, .absent => none
  | none, eq => some (.tree eq)

/-- Where the search goes on from a node with a character, unless it fails. -/
def step : Ternary → UInt8 → Option Place
  | .absent, _ => none
  | .node string ref inf eq sup, d =>
      match string with
      | [] => none
      | [c] => if d = c then behind ref inf eq sup else if d < c then step inf d else step sup d
      | c :: rest => if d = c then some (.tree (.node rest ref inf eq sup)) else none

/-- What the walk of a byte does. -/
def Walks (next : Option Place) (walked : Option (Option (List UInt8))) : Prop :=
  match next with
  | none => walked = some none
  | some place => ∃ tail, walked = some (some (place.bytes ++ tail))

--------------------------------------------------
-- The flags
--------------------------------------------------

section Links

variable {inf eq sup : Ternary}

theorem isNode_iff (t : Ternary) : t.isNode ↔ t ≠ .absent := by
  cases t <;> simp [Ternary.isNode]

theorem flatten_returned (t : Ternary)
    : (if t.isNode then [blobRec t] else []).flatten = blobRec t := by
  cases t with
  | absent => rw [blobRec_absent]; rfl
  | node => simp [Ternary.isNode]

/-- The subtrees of a node stand behind its flags. -/
theorem subtrees_length (inf eq sup : Ternary)
    : (blobRec inf).length + (blobRec eq).length + (blobRec sup).length ≤ (links inf eq sup).length := by
  rw [links, List.length_append, List.flatten_append, List.flatten_append, flatten_returned,
    flatten_returned, flatten_returned, List.length_append, List.length_append]
  omega

theorem blobRec_pos {t : Ternary} (walkable : Walkable t) (present : t ≠ .absent)
    : 0 < (blobRec t).length := by
  cases walkable with
  | absent => exact absurd rfl present
  | node =>
      rw [blobRec_node, List.length_append, List.length_append, List.length_singleton]
      omega

/-- No subtree. -/
theorem links_none : links .absent .absent .absent = [0] := by
  decide

theorem absent_isNode : Ternary.absent.isNode = false := rfl

/-- Only a subtree under `=`: the flags are left out. -/
theorem links_eq (eq_node : eq ≠ .absent) : links .absent eq .absent = blobRec eq := by
  rw [← isNode_iff] at eq_node
  have flag : flags .absent eq .absent = 2 := by
    simp only [flags, absent_isNode, eq_node]
    rfl
  simp [links, flag, absent_isNode, eq_node]

theorem links_inf (inf_node : inf ≠ .absent) : links inf .absent .absent = 1 :: blobRec inf := by
  rw [← isNode_iff] at inf_node
  have flag : flags inf .absent .absent = 1 := by
    simp only [flags, absent_isNode, inf_node]
    rfl
  simp [links, flag, absent_isNode, inf_node]

theorem links_inf_eq (inf_node : inf ≠ .absent) (eq_node : eq ≠ .absent)
    : links inf eq .absent = 3 :: UInt8.ofNat (blobRec inf).length :: (blobRec inf ++ blobRec eq) := by
  rw [← isNode_iff] at inf_node eq_node
  have flag : flags inf eq .absent = 3 := by
    simp only [flags, absent_isNode, inf_node, eq_node]
    rfl
  simp [links, flag, absent_isNode, inf_node, eq_node]

theorem links_inf_sup (inf_node : inf ≠ .absent) (sup_node : sup ≠ .absent)
    : links inf .absent sup = 5 :: UInt8.ofNat (blobRec inf).length :: (blobRec inf ++ blobRec sup) := by
  rw [← isNode_iff] at inf_node sup_node
  have flag : flags inf .absent sup = 5 := by
    simp only [flags, absent_isNode, inf_node, sup_node]
    rfl
  simp [links, flag, absent_isNode, inf_node, sup_node]

theorem links_all (inf_node : inf ≠ .absent) (eq_node : eq ≠ .absent) (sup_node : sup ≠ .absent)
    : links inf eq sup = 7 :: UInt8.ofNat (blobRec inf).length :: UInt8.ofNat (blobRec eq).length
        :: (blobRec inf ++ (blobRec eq ++ blobRec sup)) := by
  rw [← isNode_iff] at inf_node eq_node sup_node
  have flag : flags inf eq sup = 7 := by
    simp only [flags, inf_node, eq_node, sup_node]
    rfl
  simp [links, flag, inf_node, eq_node, sup_node]

/-- The first character of a node is no flag; when it is a mark a reference follows. -/
theorem blobRec_head {t : Ternary} (walkable : Walkable t) (present : t ≠ .absent)
    : ∃ e more, blobRec t = e :: more ∧ 32 ≤ e ∧ (128 ≤ e → ∃ e' more', more = e' :: more' ∧ 128 ≤ e') := by
  cases walkable with
  | absent => exact absurd rfl present
  | @node s c ref inf eq sup _ _ _ _ plain last marked small _ =>
      rw [blobRec_node]
      cases s with
      | nil =>
          refine ⟨c, refByte ref ++ links inf eq sup, rfl, last, fun mark => ?_⟩
          cases ref with
          | none => exact absurd rfl (marked mark)
          | some r =>
              refine ⟨_, _, rfl, ?_⟩
              have := small r rfl
              rw [UInt8.le_iff_toNat_le, UInt8.toNat_add, UInt8.toNat_ofNat']
              simp only [UInt8.reduceToNat, Nat.reducePow]
              omega
      | cons x s =>
          obtain ⟨low, high⟩ := plain x List.mem_cons_self
          exact ⟨x, _, rfl, low, fun mark => absurd (UInt8.lt_of_lt_of_le high mark) (UInt8.lt_irrefl _)⟩

end Links

--------------------------------------------------
-- One turn
--------------------------------------------------

section Turns

variable {c d : UInt8} {inf eq sup : Ternary} {tail : List UInt8}

/-- A byte that is no flag ends the search when the characters differ. -/
theorem turnAt_other {next : UInt8} {blob : List UInt8} (other : d ≠ c) (no_flag : 32 ≤ next)
    : turnAt d c next blob = some .mismatch := by
  have no_flag : ¬ next < 32 := UInt8.not_lt.mpr no_flag
  simp [turnAt, other, no_flag]

/-- A byte that is no flag is where the search goes on when the characters are the same. -/
theorem turnAt_same {next : UInt8} {blob : List UInt8} (no_flag : 32 ≤ next)
    : turnAt c c next blob = some (.found blob) := by
  have no_flag : ¬ next < 32 := UInt8.not_lt.mpr no_flag
  simp [turnAt, no_flag]

theorem offset_toNat {k : UInt8} {n : Nat} (fits : k.toNat + n < 256)
    : (k + UInt8.ofNat n).toNat = k.toNat + n := by
  rw [UInt8.toNat_add, UInt8.toNat_ofNat']
  simp only [Nat.reducePow] at *
  omega

theorem drop_subtree {a b : List UInt8} {n : Nat} (length : a.length = n) : (a ++ b).drop n = b :=
  List.drop_left' length

/-! A turn at each of the flags that the encoder writes. -/

theorem turnAt_zero {bs : List UInt8} : turnAt d c 0 (0 :: bs) = some .mismatch := by
  have small : (0 : UInt8) < 32 := by decide
  simp [turnAt, small]

theorem turnAt_one {bs : List UInt8}
    : turnAt d c 1 (1 :: bs)
      = some (if d = c then .mismatch else if d < c then .descend bs else .mismatch) := by
  have small : (1 : UInt8) < 32 := by decide
  have one : (1 : UInt8) &&& 1 = 1 := by decide
  have two : (1 : UInt8) &&& 2 = 0 := by decide
  have four : (1 : UInt8) &&& 4 = 0 := by decide
  have offset : (offsetInf 1).toNat = 1 := by decide
  simp only [turnAt, small, one, two, four, offset, true_and]
  split_ifs <;> first | rfl | contradiction

theorem turnAt_three {k : UInt8} {bs : List UInt8}
    : turnAt d c 3 (3 :: k :: bs)
      = some (if d = c then .found ((3 :: k :: bs).drop (2 + k).toNat)
          else if d < c then .descend bs else .mismatch) := by
  have small : (3 : UInt8) < 32 := by decide
  have one : (3 : UInt8) &&& 1 = 1 := by decide
  have two : (3 : UInt8) &&& 2 = 2 := by decide
  have four : (3 : UInt8) &&& 4 = 0 := by decide
  have offset : offsetInf 3 = 2 := by decide
  simp only [turnAt, small, one, two, four, offset, true_and]
  split_ifs <;> first | rfl | contradiction

theorem turnAt_five {k : UInt8} {bs : List UInt8}
    : turnAt d c 5 (5 :: k :: bs)
      = some (if d = c then .mismatch
          else if d < c then .descend bs else .descend ((5 :: k :: bs).drop (2 + k).toNat)) := by
  have small : (5 : UInt8) < 32 := by decide
  have one : (5 : UInt8) &&& 1 = 1 := by decide
  have two : (5 : UInt8) &&& 2 = 0 := by decide
  have three : (5 : UInt8) &&& 3 = 1 := by decide
  have four : (5 : UInt8) &&& 4 = 4 := by decide
  have offset : offsetInf 5 = 2 := by decide
  simp only [turnAt, small, one, two, three, four, offset, true_and]
  split_ifs <;> first | rfl | contradiction

theorem turnAt_seven {k l : UInt8} {bs : List UInt8}
    : turnAt d c 7 (7 :: k :: l :: bs)
      = some (if d = c then .found ((7 :: k :: l :: bs).drop (3 + k).toNat)
          else if d < c then .descend bs else .descend ((7 :: k :: l :: bs).drop (3 + k + l).toNat)) := by
  have small : (7 : UInt8) < 32 := by decide
  have one : (7 : UInt8) &&& 1 = 1 := by decide
  have two : (7 : UInt8) &&& 2 = 2 := by decide
  have three : (7 : UInt8) &&& 3 = 3 := by decide
  have four : (7 : UInt8) &&& 4 = 4 := by decide
  have offset : offsetInf 7 = 3 := by decide
  simp only [turnAt, small, one, two, three, four, offset, true_and]
  split_ifs <;> first | rfl | contradiction

/-- The turn at the flags of a node when the characters differ. -/
theorem turnAt_links (tail : List UInt8) (left : sup ≠ .absent → inf ≠ .absent)
    (offsets : Offsets inf eq sup) (flagged : inf ≠ .absent ∨ eq = .absent)
    (other : d ≠ c)
    : ∃ next more, links inf eq sup = next :: more ∧ next < 32
      ∧ turnAt d c next (next :: more ++ tail)
        = some (if d < c then
            if inf = .absent then .mismatch
            else .descend (blobRec inf ++ (blobRec eq ++ (blobRec sup ++ tail)))
          else if sup = .absent then .mismatch
          else .descend (blobRec sup ++ tail)) := by
  by_cases no_inf : inf = .absent
  · have no_eq : eq = .absent := flagged.resolve_left fun present => present no_inf
    have no_sup : sup = .absent := by_contra fun present => left present no_inf
    subst no_inf no_eq no_sup
    exact ⟨0, [], links_none, by decide, by rw [List.cons_append, turnAt_zero]; simp⟩
  by_cases no_eq : eq = .absent <;> by_cases no_sup : sup = .absent
  · subst no_eq no_sup
    exact ⟨1, _, links_inf no_inf, by decide, by
      rw [List.cons_append, turnAt_one]
      simp [other, no_inf]⟩
  · subst no_eq
    have fits := offsets.sup_offset no_sup rfl
    have offset : (2 + UInt8.ofNat (blobRec inf).length).toNat = 2 + (blobRec inf).length :=
      offset_toNat (show 2 + _ < 256 by omega)
    refine ⟨5, _, links_inf_sup no_inf no_sup, by decide, ?_⟩
    rw [List.cons_append, List.cons_append, List.append_assoc, turnAt_five, offset,
      Nat.add_comm, List.drop_succ_cons, List.drop_succ_cons, drop_subtree rfl]
    simp [other, no_inf, no_sup]
  · subst no_sup
    refine ⟨3, _, links_inf_eq no_inf no_eq, by decide, ?_⟩
    rw [List.cons_append, List.cons_append, List.append_assoc, turnAt_three]
    simp [other, no_inf]
  · have fits := offsets.sup_offset_eq no_sup no_eq
    have offset : (3 + UInt8.ofNat (blobRec inf).length).toNat = 3 + (blobRec inf).length :=
      offset_toNat (show 3 + _ < 256 by omega)
    have offset' : (3 + UInt8.ofNat (blobRec inf).length + UInt8.ofNat (blobRec eq).length).toNat
        = 3 + (blobRec inf).length + (blobRec eq).length := by
      rw [offset_toNat (by rw [offset]; omega), offset]
    refine ⟨7, _, links_all no_inf no_eq no_sup, by decide, ?_⟩
    rw [List.cons_append, List.cons_append, List.cons_append, List.append_assoc, turnAt_seven, offset']
    have skip : (7 :: UInt8.ofNat (blobRec inf).length :: UInt8.ofNat (blobRec eq).length
        :: (blobRec inf ++ (blobRec eq ++ blobRec sup ++ tail))).drop
          (3 + (blobRec inf).length + (blobRec eq).length) = blobRec sup ++ tail := by
      rw [Nat.add_assoc, Nat.add_comm]
      simp only [List.drop_succ_cons]
      rw [← List.append_assoc, ← List.append_assoc, List.append_assoc]
      exact drop_subtree (by rw [List.length_append])
    rw [skip]
    simp [other, no_inf, no_sup]

/-- The turn at the flags of a node when the characters are the same. -/
theorem turnAt_links_same (c : UInt8) (tail : List UInt8) (left : sup ≠ .absent → inf ≠ .absent) (offsets : Offsets inf eq sup)
    (flagged : inf ≠ .absent ∨ eq = .absent)
    : ∃ next more, links inf eq sup = next :: more ∧ next < 32
      ∧ turnAt c c next (next :: more ++ tail)
        = some (if eq = .absent then .mismatch else .found (blobRec eq ++ (blobRec sup ++ tail))) := by
  by_cases no_inf : inf = .absent
  · have no_eq : eq = .absent := flagged.resolve_left fun present => present no_inf
    have no_sup : sup = .absent := by_contra fun present => left present no_inf
    subst no_inf no_eq no_sup
    exact ⟨0, [], links_none, by decide, by rw [List.cons_append, turnAt_zero]; simp⟩
  by_cases no_eq : eq = .absent <;> by_cases no_sup : sup = .absent
  · subst no_eq no_sup
    exact ⟨1, _, links_inf no_inf, by decide, by
      rw [List.cons_append, turnAt_one]
      simp⟩
  · subst no_eq
    exact ⟨5, _, links_inf_sup no_inf no_sup, by decide, by
      rw [List.cons_append, List.cons_append, turnAt_five]
      simp⟩
  · subst no_sup
    have fits := offsets.eq_offset no_inf no_eq
    have offset : (2 + UInt8.ofNat (blobRec inf).length).toNat = 2 + (blobRec inf).length :=
      offset_toNat (show 2 + _ < 256 by omega)
    refine ⟨3, _, links_inf_eq no_inf no_eq, by decide, ?_⟩
    rw [List.cons_append, List.cons_append, List.append_assoc, turnAt_three, offset,
      Nat.add_comm, List.drop_succ_cons, List.drop_succ_cons, drop_subtree rfl]
    simp [no_eq]
  · have fits := offsets.sup_offset_eq no_sup no_eq
    have offset : (3 + UInt8.ofNat (blobRec inf).length).toNat = 3 + (blobRec inf).length :=
      offset_toNat (show 3 + _ < 256 by omega)
    refine ⟨7, _, links_all no_inf no_eq no_sup, by decide, ?_⟩
    rw [List.cons_append, List.cons_append, List.cons_append, List.append_assoc, turnAt_seven, offset,
      Nat.add_comm, List.drop_succ_cons, List.drop_succ_cons, List.drop_succ_cons, drop_subtree rfl]
    simp [no_eq]

/-- A node without flags goes on with a byte that is none. -/
theorem links_unflagged (left : sup ≠ .absent → inf ≠ .absent) (unflagged : ¬ (inf ≠ .absent ∨ eq = .absent))
    : eq ≠ .absent ∧ inf = .absent ∧ sup = .absent ∧ links inf eq sup = blobRec eq := by
  obtain ⟨no_inf, present⟩ := not_or.mp unflagged
  have no_inf := not_not.mp no_inf
  have no_sup : sup = .absent := by_contra fun present => left present no_inf
  subst no_inf no_sup
  exact ⟨present, rfl, rfl, links_eq present⟩

/-- The byte of a reference is no character. -/
theorem ref_high {r : Nat} (small : r < 128) : 128 ≤ 128 + UInt8.ofNat r := by
  rw [UInt8.le_iff_toNat_le, UInt8.toNat_add, UInt8.toNat_ofNat']
  simp only [UInt8.reduceToNat, Nat.reducePow]
  omega

theorem no_flag_of_high {x : UInt8} (high : 128 ≤ x) : 32 ≤ x :=
  UInt8.le_trans (by decide) high

theorem turn_reads {next : UInt8} {blob : List UInt8} (reads : ¬ (d ≠ c ∧ 128 ≤ next))
    : turn d (c :: next :: blob) = turnAt d c next (next :: blob) := by
  rw [turn.eq_def]
  dsimp only
  rw [if_neg reads]

/-- A reference, or the mark of one, is skipped. -/
theorem turn_skips {ref next : UInt8} {blob : List UInt8} (other : d ≠ c) (high : 128 ≤ ref)
    : turn d (c :: ref :: next :: blob) = turnAt d c next (next :: blob) := by
  rw [turn.eq_def]
  dsimp only
  rw [if_pos ⟨other, high⟩]

/-- The turn at the last character of a node, or at its reference, when the characters differ. -/
theorem turn_other (tail : List UInt8) {ref : Option Nat} (eq_walkable : Walkable eq) (left : sup ≠ .absent → inf ≠ .absent)
    (offsets : Offsets inf eq sup) (small : ∀ r ∈ ref, r < 128) (other : d ≠ c)
    : turn d (c :: (refByte ref ++ (links inf eq sup ++ tail)))
      = some (if d < c then
          if inf = .absent then .mismatch
          else .descend (blobRec inf ++ (blobRec eq ++ (blobRec sup ++ tail)))
        else if sup = .absent then .mismatch
        else .descend (blobRec sup ++ tail)) := by
  by_cases flagged : inf ≠ .absent ∨ eq = .absent
  · obtain ⟨next, more, same, small_next, ends⟩ := turnAt_links tail left offsets flagged other
    have low : ¬ 128 ≤ next := UInt8.not_le.mpr (UInt8.lt_trans small_next (by decide))
    rw [same]
    cases ref with
    | none =>
        rw [refByte, List.nil_append, List.cons_append, turn_reads fun high => low high.2]
        exact ends
    | some r =>
        rw [refByte, List.cons_append, List.nil_append, List.cons_append,
          turn_skips other (ref_high (small r rfl))]
        exact ends
  · obtain ⟨present, rfl, rfl, same⟩ := links_unflagged left flagged
    obtain ⟨e, more, string, no_flag, mark⟩ := blobRec_head eq_walkable present
    rw [same, string, if_pos rfl, if_pos rfl, ite_self]
    cases ref with
    | none =>
        rw [refByte, List.nil_append]
        by_cases high : 128 ≤ e
        · obtain ⟨e', more', rfl, high'⟩ := mark high
          rw [List.cons_append, List.cons_append, turn_skips other high]
          exact turnAt_other other (no_flag_of_high high')
        · rw [List.cons_append, turn_reads fun both => high both.2]
          exact turnAt_other other no_flag
    | some r =>
        rw [refByte, List.cons_append, List.nil_append, List.cons_append,
          turn_skips other (ref_high (small r rfl))]
        exact turnAt_other other no_flag

/-- The turn at the last character of a node when the characters are the same. -/
theorem turn_last (c : UInt8) (tail : List UInt8) {ref : Option Nat} (eq_walkable : Walkable eq) (left : sup ≠ .absent → inf ≠ .absent)
    (offsets : Offsets inf eq sup) (small : ∀ r ∈ ref, r < 128)
    : ∃ tail', turn c (c :: (refByte ref ++ (links inf eq sup ++ tail)))
      = some (match behind ref inf eq sup with
        | none => .mismatch
        | some place => .found (place.bytes ++ tail')) := by
  cases ref with
  | some r =>
      refine ⟨tail, ?_⟩
      rw [refByte, List.cons_append, List.nil_append, turn_reads fun both => both.1 rfl,
        turnAt_same (no_flag_of_high (ref_high (small r rfl)))]
      rfl
  | none =>
      rw [refByte, List.nil_append]
      by_cases flagged : inf ≠ .absent ∨ eq = .absent
      · obtain ⟨next, more, same, small_next, ends⟩ :=
          turnAt_links_same c tail left offsets flagged
        refine ⟨blobRec sup ++ tail, ?_⟩
        rw [same, List.cons_append, turn_reads fun both => both.1 rfl]
        rw [List.cons_append] at ends
        rw [ends]
        cases eq with
        | absent => rfl
        | node => rfl
      · obtain ⟨present, rfl, rfl, same⟩ := links_unflagged left flagged
        obtain ⟨e, more, string, no_flag, mark⟩ := blobRec_head eq_walkable present
        refine ⟨tail, ?_⟩
        rw [same, string, List.cons_append, turn_reads fun both => both.1 rfl, turnAt_same no_flag]
        cases eq with
        | absent => exact absurd rfl present
        | node => rw [← List.cons_append, ← string]; rfl

/-- The turn inside the string of a node. -/
theorem turn_string (d x : UInt8) (inf eq sup : Ternary) (tail : List UInt8) {s : Symbol}
    {ref : Option Nat} (plain : ∀ x ∈ s, 32 ≤ x ∧ x < 128)
    (last : 32 ≤ c) (marked : 128 ≤ c → ref ≠ none) (small : ∀ r ∈ ref, r < 128)
    : turn d (x :: (s ++ [c]) ++ (refByte ref ++ (links inf eq sup ++ tail)))
      = some (if d = x then .found (s ++ [c] ++ (refByte ref ++ (links inf eq sup ++ tail)))
        else .mismatch) := by
  cases s with
  | cons y s =>
      obtain ⟨low, high⟩ := plain y List.mem_cons_self
      have reads : ¬ (d ≠ x ∧ 128 ≤ y) := fun both =>
        UInt8.lt_irrefl _ (UInt8.lt_of_lt_of_le high both.2)
      rw [List.cons_append, List.cons_append, List.cons_append, turn_reads reads]
      by_cases same : d = x
      · rw [if_pos same, same, turnAt_same low]
      · rw [if_neg same, turnAt_other same low]
  | nil =>
      by_cases same : d = x
      · subst same
        rw [List.nil_append, List.cons_append, List.cons_append, List.nil_append,
          turn_reads fun both => both.1 rfl, turnAt_same last, if_pos rfl]
      · rw [if_neg same]
        by_cases high : 128 ≤ c
        · -- the mark of an URL, before its reference
          cases ref with
          | none => exact absurd rfl (marked high)
          | some r =>
              rw [refByte, List.nil_append, List.cons_append, List.cons_append, List.nil_append,
                List.cons_append, turn_skips same high]
              exact turnAt_other same (no_flag_of_high (ref_high (small r rfl)))
        · rw [List.nil_append, List.cons_append, List.cons_append, List.nil_append,
            turn_reads fun both => high both.2]
          exact turnAt_other same last

end Turns

--------------------------------------------------
-- The walk
--------------------------------------------------

section Walk

variable {d : UInt8}

@[simp] theorem step_absent : step .absent d = none := rfl

theorem step_last (c : UInt8) (ref : Option Nat) (inf eq sup : Ternary)
    : step (.node [c] ref inf eq sup) d
      = if d = c then behind ref inf eq sup else if d < c then step inf d else step sup d := rfl

theorem step_string (x y : UInt8) (s : Symbol) (ref : Option Nat) (inf eq sup : Ternary)
    : step (.node (x :: y :: s) ref inf eq sup) d
      = if d = x then some (.tree (.node (y :: s) ref inf eq sup)) else none := rfl

theorem walk_found {fuel : Nat} {blob next : List UInt8} (turned : turn d blob = some (.found next))
    : walk d (fuel + 1) blob = some (some next) := by
  rw [walk, turned]

theorem walk_mismatch {fuel : Nat} {blob : List UInt8} (turned : turn d blob = some .mismatch)
    : walk d (fuel + 1) blob = some none := by
  rw [walk, turned]

theorem walk_descend {fuel : Nat} {blob next : List UInt8} (turned : turn d blob = some (.descend next))
    : walk d (fuel + 1) blob = walk d fuel next := by
  rw [walk, turned]

/-- The walk from a subtree follows it, wherever the subtree stands. -/
def SubtreeWalks (d : UInt8) (t : Ternary) : Prop :=
  t ≠ .absent → ∀ {fuel : Nat} {tail : List UInt8}, (blobRec t).length ≤ fuel →
    Walks (step t d) (walk d fuel (blobRec t ++ tail))

/-- The walk from the last character of a node, or from its reference. -/
theorem walk_last {c : UInt8} {ref : Option Nat} {inf eq sup : Ternary} (inf_walks : SubtreeWalks d inf)
    (eq_walkable : Walkable eq) (sup_walks : SubtreeWalks d sup) (left : sup ≠ .absent → inf ≠ .absent)
    (small : ∀ r ∈ ref, r < 128) (offsets : Offsets inf eq sup) {fuel : Nat} {tail : List UInt8}
    (enough : (links inf eq sup).length ≤ fuel)
    : Walks (step (.node [c] ref inf eq sup) d)
        (walk d (fuel + 1) (c :: (refByte ref ++ (links inf eq sup ++ tail)))) := by
  have subtrees := subtrees_length inf eq sup
  rw [step_last]
  by_cases same : d = c
  · subst same
    obtain ⟨tail', turned⟩ := turn_last d tail eq_walkable left offsets small
    rw [if_pos rfl]
    cases place : behind ref inf eq sup with
    | none =>
        rw [place] at turned
        exact walk_mismatch turned
    | some place' =>
        rw [place] at turned
        exact ⟨tail', walk_found turned⟩
  · have turned := turn_other tail eq_walkable left offsets small same
    rw [if_neg same]
    by_cases before : d < c
    · rw [if_pos before] at turned ⊢
      by_cases no_inf : inf = .absent
      · rw [if_pos no_inf] at turned
        rw [walk_mismatch turned, no_inf, step_absent]
        rfl
      · rw [if_neg no_inf] at turned
        rw [walk_descend turned]
        exact inf_walks no_inf (by omega)
    · rw [if_neg before] at turned ⊢
      by_cases no_sup : sup = .absent
      · rw [if_pos no_sup] at turned
        rw [walk_mismatch turned, no_sup, step_absent]
        rfl
      · rw [if_neg no_sup] at turned
        rw [walk_descend turned]
        exact sup_walks no_sup (by omega)

/-- The walk from the first character of a tree follows it. By induction on the tree: a turn is in the
string of the root, ends there, or goes to a brother.
-/
theorem walk_tree {t : Ternary} (walkable : Walkable t) : SubtreeWalks d t := by
  induction walkable with
  | absent => exact fun present => absurd rfl present
  | @node s c ref inf eq sup _ eq_walkable _ left plain last marked small offsets inf_ih _ sup_ih =>
      intro _ fuel tail enough
      rw [blobRec_node, List.length_append, List.length_append, List.length_append,
        List.length_singleton] at enough
      obtain ⟨fuel, rfl⟩ : ∃ fuel', fuel = fuel' + 1 := ⟨fuel - 1, by omega⟩
      have array : blobRec (.node (s ++ [c]) ref inf eq sup) ++ tail
          = s ++ [c] ++ (refByte ref ++ (links inf eq sup ++ tail)) := by
        simp only [blobRec_node, List.append_assoc]
      cases s with
      | cons x s =>
          have turned := turn_string d x inf eq sup tail (fun y mem => plain y (List.mem_cons_of_mem x mem))
            last marked small
          rw [array, List.cons_append]
          obtain ⟨y, s', string⟩ : ∃ y s', s ++ [c] = y :: s' :=
            List.exists_cons_of_ne_nil (List.append_ne_nil_of_right_ne_nil s (List.cons_ne_nil c []))
          by_cases same : d = x
          · rw [if_pos same] at turned
            rw [walk_found turned, string, step_string, if_pos same]
            exact ⟨tail, by simp only [Place.bytes, blobRec_node, List.append_assoc]⟩
          · rw [if_neg same] at turned
            rw [walk_mismatch turned, string, step_string, if_neg same]
            rfl
      | nil =>
          rw [array, List.nil_append, List.cons_append, List.nil_append]
          exact walk_last inf_ih eq_walkable sup_ih left small offsets (by omega)

end Walk

--------------------------------------------------
-- The places of a walk
--------------------------------------------------

/-- A place in an array that can be walked. -/
inductive Place.Good : Place → Prop
  | tree {t : Ternary} (walkable : Walkable t) (present : t ≠ .absent) : Good (.tree t)
  | ref {r : Nat} {inf eq sup : Ternary} (small : r < 128) (inf_walkable : Walkable inf)
    (eq_walkable : Walkable eq) (sup_walkable : Walkable sup) (left : sup ≠ .absent → inf ≠ .absent)
    (offsets : Offsets inf eq sup)
    : Good (.ref r inf eq sup)

/-- Where the search goes on from a place. At a reference its byte takes the place of the last character
of the node.
-/
def Place.step : Place → UInt8 → Option Place
  | .tree t, d => Input.step t d
  | .ref r inf eq sup, d => Input.step (.node [128 + UInt8.ofNat r] none inf eq sup) d

/-- `blob++` at a reference or at the mark before it. -/
inductive Place.Passes : Place → Place → Prop
  | mark {c : UInt8} {r : Nat} {inf eq sup : Ternary} (high : 128 ≤ c)
    : Passes (.tree (.node [c] (some r) inf eq sup)) (.ref r inf eq sup)
  | ref {r : Nat} {eq : Ternary} (present : eq ≠ .absent)
    : Passes (.ref r .absent eq .absent) (.tree eq)

section Places

variable {place place' : Place} {d : UInt8} {tail : List UInt8}

theorem behind_good {ref : Option Nat} {inf eq sup : Ternary} (inf_walkable : Walkable inf)
    (eq_walkable : Walkable eq) (sup_walkable : Walkable sup) (left : sup ≠ .absent → inf ≠ .absent)
    (offsets : Offsets inf eq sup) (small : ∀ r ∈ ref, r < 128) (next : behind ref inf eq sup = some place)
    : place.Good := by
  cases ref with
  | some r =>
      cases next
      exact .ref (small r rfl) inf_walkable eq_walkable sup_walkable left offsets
  | none =>
      cases eq with
      | absent => cases next
      | node =>
          cases next
          exact .tree eq_walkable Ternary.noConfusion

/-- By induction on the tree. -/
theorem step_good {t : Ternary} (walkable : Walkable t) (next : step t d = some place) : place.Good := by
  induction walkable with
  | absent => cases next
  | @node s c ref inf eq sup inf_walkable eq_walkable sup_walkable left plain last marked small offsets
      inf_ih _ sup_ih =>
      cases s with
      | nil =>
          rw [List.nil_append, step_last] at next
          split_ifs at next
          · exact behind_good inf_walkable eq_walkable sup_walkable left offsets small next
          · exact inf_ih next
          · exact sup_ih next
      | cons x s =>
          obtain ⟨y, s', string⟩ : ∃ y s', s ++ [c] = y :: s' :=
            List.exists_cons_of_ne_nil (List.append_ne_nil_of_right_ne_nil s (List.cons_ne_nil c []))
          rw [List.cons_append, string, step_string] at next
          split_ifs at next
          cases next
          rw [← string]
          exact .tree (.node inf_walkable eq_walkable sup_walkable left
            (fun y mem => plain y (List.mem_cons_of_mem x mem)) last marked small offsets) Ternary.noConfusion

theorem Walkable.ref_good {string : Symbol} {r : Nat} {inf eq sup : Ternary}
    (walkable : Walkable (.node string (some r) inf eq sup))
    : (Place.ref r inf eq sup).Good := by
  cases walkable with
  | node inf_walkable eq_walkable sup_walkable left _ _ _ small offsets =>
      exact .ref (small r rfl) inf_walkable eq_walkable sup_walkable left offsets

theorem Place.Good.step (good : place.Good) (next : place.step d = some place') : place'.Good := by
  cases good with
  | tree walkable _ => exact step_good walkable next
  | @ref r inf eq sup small inf_walkable eq_walkable sup_walkable left offsets =>
      rw [Place.step, step_last] at next
      split_ifs at next
      · exact behind_good inf_walkable eq_walkable sup_walkable left offsets
          (by simp) next
      · exact step_good inf_walkable next
      · exact step_good sup_walkable next

theorem Place.Good.bytes_ne_nil (good : place.Good) : place.bytes ≠ [] := by
  cases good with
  | tree walkable present => exact List.ne_nil_of_length_pos (blobRec_pos walkable present)
  | ref => exact List.cons_ne_nil _ _

/-- The walk from a place follows the tree. -/
theorem Place.Good.walks (good : place.Good) (d : UInt8) (tail : List UInt8)
    : Walks (place.step d) (walk d (place.bytes ++ tail).length (place.bytes ++ tail)) := by
  cases good with
  | tree walkable present =>
      exact walk_tree walkable present (by rw [Place.bytes, List.length_append]; omega)
  | @ref r inf eq sup small inf_walkable eq_walkable sup_walkable left offsets =>
      rw [Place.bytes, List.cons_append, List.length_cons, List.length_append]
      show Walks _ (walk d _ (_ :: (refByte none ++ (links inf eq sup ++ tail))))
      exact walk_last (walk_tree inf_walkable) eq_walkable (walk_tree sup_walkable) left
        (by simp) offsets (Nat.le_add_right _ _)

theorem Place.Good.passes (good : place.Good) (passes : place.Passes place') : place'.Good := by
  cases passes with
  | mark high =>
      cases good with
      | tree walkable _ => exact walkable.ref_good
  | ref present =>
      cases good with
      | ref _ _ eq_walkable => exact .tree eq_walkable present

/-- Behind a reference there is a place when no flags stand there. -/
theorem Place.Good.skips (good : place.Good) {ref next : UInt8} {rest : List UInt8}
    (array : place.bytes ++ tail = ref :: next :: rest) (high : 128 ≤ ref) (no_flag : 32 ≤ next)
    : ∃ place', place.Passes place' ∧ next :: rest = place'.bytes ++ tail := by
  cases good with
  | tree walkable present =>
      cases walkable with
      | absent => exact absurd rfl present
      | @node s c ref' inf eq sup _ _ _ _ plain _ marked _ _ =>
          rw [Place.bytes, blobRec_node] at array
          cases s with
          | cons x s =>
              obtain ⟨rfl, -⟩ := List.cons.inj array
              exact absurd (UInt8.lt_of_lt_of_le (plain x List.mem_cons_self).2 high) (UInt8.lt_irrefl _)
          | nil =>
              obtain ⟨rfl, same⟩ := List.cons.inj array
              cases ref' with
              | none => exact absurd rfl (marked high)
              | some r => exact ⟨.ref r inf eq sup, .mark high, same.symm⟩
  | @ref r inf eq sup small inf_walkable eq_walkable sup_walkable left offsets =>
      obtain ⟨-, same⟩ := List.cons.inj array
      by_cases flagged : inf ≠ .absent ∨ eq = .absent
      · obtain ⟨flag, more, flags, small_flag, -⟩ := turnAt_links_same ref tail left offsets flagged
        rw [List.append_eq, flags] at same
        obtain ⟨rfl, -⟩ := List.cons.inj same
        exact absurd (UInt8.lt_of_lt_of_le small_flag no_flag) (UInt8.lt_irrefl _)
      · obtain ⟨present, rfl, rfl, links_eq⟩ := links_unflagged left flagged
        rw [List.append_eq, links_eq] at same
        exact ⟨.tree eq, .ref present, same.symm⟩

end Places

--------------------------------------------------
-- The walk of a generated array
--------------------------------------------------

/-- The characters that the encoder can tell from flags and references. Only the last one of a symbol
may be the mark 255 of an URL.
-/
def Spelled (word : Symbol) : Prop :=
  (∀ c ∈ word.dropLast, 32 ≤ c ∧ c < 128) ∧ ∀ c ∈ word.getLast?, 32 ≤ c

/-- The offsets of every node fit. -/
def OffsetsFit : Ternary → Prop
  | .absent => True
  | .node _ _ inf eq sup => Offsets inf eq sup ∧ OffsetsFit inf ∧ OffsetsFit eq ∧ OffsetsFit sup

instance (inf eq sup : Ternary) : Decidable (Offsets inf eq sup) :=
  decidable_of_iff
    ((inf ≠ .absent → eq ≠ .absent → 2 + (blobRec inf).length < 256)
      ∧ (sup ≠ .absent → eq = .absent → 2 + (blobRec inf).length < 256)
      ∧ (sup ≠ .absent → eq ≠ .absent → 3 + (blobRec inf).length + (blobRec eq).length < 256))
    ⟨fun ⟨h, h', h''⟩ => ⟨h, h', h''⟩, fun ⟨h, h', h''⟩ => ⟨h, h', h''⟩⟩

instance decidableOffsetsFit : ∀ t : Ternary, Decidable (OffsetsFit t)
  | .absent => .isTrue trivial
  | .node _ _ inf eq sup =>
      have := decidableOffsetsFit inf
      have := decidableOffsetsFit eq
      have := decidableOffsetsFit sup
      inferInstanceAs (Decidable (Offsets inf eq sup ∧ OffsetsFit inf ∧ OffsetsFit eq ∧ OffsetsFit sup))

theorem spelled_iff (word : Symbol)
    : word.dropLast.all (fun c => 32 ≤ c ∧ c < 128) ∧ word.getLast?.all (32 ≤ ·) ↔ Spelled word := by
  unfold Spelled
  rw [List.all_eq_true, Option.all_eq_true]
  simp only [decide_eq_true_eq]
  rfl

-- It reads the word. An instance for a quantifier over bytes may try each of the 256 for each word.
instance (word : Symbol) : Decidable (Spelled word) :=
  decidable_of_iff _ (spelled_iff word)

theorem Spelled.suffix {s w : Symbol} (nonempty : w ≠ []) (spelled : Spelled (s ++ w)) : Spelled w := by
  obtain ⟨characters, last⟩ := spelled
  rw [List.dropLast_append_of_ne_nil nonempty] at characters
  rw [List.getLast?_append_of_ne_nil s nonempty] at last
  exact ⟨fun c mem => characters c (List.mem_append_right s mem), last⟩

/-- A search tree whose words are spelled can be walked. By induction on the tree: every character
belongs to a word, and one above 127 ends it.
-/
theorem walkable_of_shaped {t : Ternary} (shaped : t.Shaped) (spelled : ∀ e ∈ t.entries, Spelled e.1)
    (few : ∀ e ∈ t.entries, e.2 < 128) (fits : OffsetsFit t)
    : Walkable t := by
  induction shaped with
  | absent => exact .absent
  | @node s c ref inf eq sup inf_shaped eq_shaped sup_shaped final left _ _ inf_ih eq_ih sup_ih =>
      obtain ⟨offsets, inf_fits, eq_fits, sup_fits⟩ := fits
      rw [entries_node] at spelled few
      have inf_mem {e : Entry} (mem : e ∈ inf.entries)
          : under s e ∈ (inf.entries ++ (own ref ++ eq.entries).map (under [c]) ++ sup.entries).map (under s) :=
        List.mem_map_of_mem (List.mem_append_left _ (List.mem_append_left _ mem))
      have sup_mem {e : Entry} (mem : e ∈ sup.entries)
          : under s e ∈ (inf.entries ++ (own ref ++ eq.entries).map (under [c]) ++ sup.entries).map (under s) :=
        List.mem_map_of_mem (List.mem_append_right _ mem)
      have own_mem {e : Entry} (mem : e ∈ own ref ++ eq.entries)
          : under s (under [c] e)
            ∈ (inf.entries ++ (own ref ++ eq.entries).map (under [c]) ++ sup.entries).map (under s) :=
        List.mem_map_of_mem (List.mem_append_left _ (List.mem_append_right _ (List.mem_map_of_mem mem)))
      have word {e : Entry} (mem : e ∈ own ref ++ eq.entries) : Spelled (s ++ [c] ++ e.1) := by
        have spelled := spelled _ (own_mem mem)
        rwa [under_under] at spelled
      have characters : (∀ x ∈ s, 32 ≤ x ∧ x < 128) ∧ 32 ≤ c ∧ (128 ≤ c → ref ≠ none) := by
        cases ref with
        | some r =>
            have spelled := word (e := ([], r)) (List.mem_append_left _ (by simp [own]))
            rw [List.append_nil] at spelled
            refine ⟨fun x mem => spelled.1 x (by rwa [List.dropLast_concat]), spelled.2 c ?_, fun _ => ?_⟩
            · rw [List.getLast?_concat]
              rfl
            · exact Option.some_ne_none r
        | none =>
            obtain ⟨e, mem⟩ := eq_shaped.exists_entry (final rfl)
            have spelled := word (List.mem_append_right _ mem)
            have inner (x : UInt8) (mem' : x ∈ s ++ [c]) : 32 ≤ x ∧ x < 128 := by
              refine spelled.1 x ?_
              rw [List.dropLast_append_of_ne_nil (eq_shaped.entry_nonempty e mem)]
              exact List.mem_append_left _ mem'
            obtain ⟨low, high⟩ := inner c (by simp)
            exact ⟨fun x mem => inner x (List.mem_append_left _ mem), low, fun mark =>
              absurd (UInt8.lt_of_lt_of_le high mark) (UInt8.lt_irrefl _)⟩
      refine .node (inf_ih ?_ ?_ inf_fits) (eq_ih ?_ ?_ eq_fits) (sup_ih ?_ ?_ sup_fits) left characters.1
        characters.2.1 characters.2.2 ?_ offsets
      · exact fun e mem => (spelled _ (inf_mem mem)).suffix (inf_shaped.entry_nonempty e mem)
      · exact fun e mem => few (under s e) (inf_mem mem)
      · exact fun e mem => (word (List.mem_append_right _ mem)).suffix
          (eq_shaped.entry_nonempty e mem)
      · exact fun e mem => few (under s (under [c] e)) (own_mem (List.mem_append_right _ mem))
      · exact fun e mem => (spelled _ (sup_mem mem)).suffix (sup_shaped.entry_nonempty e mem)
      · exact fun e mem => few (under s e) (sup_mem mem)
      · rintro r rfl
        exact few _ (own_mem (e := ([], r)) (List.mem_append_left _ (by simp [own])))

/-- Symbols whose array can be walked: characters that are neither flags nor references, references and
offsets that fit a byte.
-/
structure SymbolTable (symbols : List Symbol) : Prop where
  inhabited : symbols ≠ []
  accepted : Accepted symbols
  spelled : ∀ word ∈ symbols, Spelled word
  few : symbols.length ≤ 128
  fits : OffsetsFit (genTree symbols)

theorem SymbolTable.walkable {symbols : List Symbol} (is_table : SymbolTable symbols)
    : Walkable (genTree symbols) ∧ genTree symbols ≠ .absent := by
  obtain ⟨shaped, entries, present⟩ := genTree_compacted is_table.accepted is_table.inhabited
  refine ⟨walkable_of_shaped shaped (fun e mem => ?_) (fun e mem => ?_) is_table.fits, present⟩ <;>
    rw [entries, mem_sortedSymbols] at mem
  · exact is_table.spelled e.1 (List.mem_of_getElem? mem)
  · obtain ⟨lt, -⟩ := List.getElem?_eq_some_iff.mp mem
    exact Nat.lt_of_lt_of_le lt is_table.few

end Smews.Input
