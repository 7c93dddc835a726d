import Mathlib.Data.List.Pairwise
import Smews.Input.ContentLength
import Smews.Input.Routing

/-! The arguments of a generator in the query string of a request: their declaration, the fields of `struct args_t`
that their values are decoded to, and the turns of the parser that decode them.
-/

namespace Smews.Input

open Smews.Core Smews.Tools

--------------------------------------------------
-- Declarations
--------------------------------------------------

/-- A declared argument, with its field of `struct args_t`. -/
structure Argument where
  name : Symbol
  ref : ArgRef
deriving DecidableEq

namespace Argument

variable (x y : Argument)

def offset : Nat := x.ref.argOffset.toNat

def size : Nat := x.ref.argSize.toNat

/-- The size of the field, by its type. -/
def Sized : Prop :=
  match x.ref.argType with
  | .str => 0 < x.size
  | .ui8 => x.size = 1
  | .ui16 => x.size = 2

/-- The place of a byte of the field. -/
def Covers (i : Int) : Prop := x.offset ≤ i ∧ i < x.offset + x.size

/-- Two fields that do not overlap. -/
def Apart : Prop := x.offset + x.size ≤ y.offset ∨ y.offset + y.size ≤ x.offset

end Argument

instance : Std.Symm Argument.Apart := ⟨fun _ _ => Or.symm⟩

/-- The arguments of a generator, as they are declared, and what is generated for them. -/
structure Declares (args : HandlerArgs) (declared : List Argument) : Prop where
  tree : args.argsTree = genBlobTree (declared.map Argument.name)
  index : args.argsIndex = declared.map Argument.ref
  inhabited : declared ≠ []
  few : declared.length ≤ 127
  distinct : (declared.map Argument.name).Nodup
  nonempty : ∀ x ∈ declared, x.name ≠ []
  named : ∀ x ∈ declared, ∀ c ∈ x.name, (32 < c ∧ c < 127) ∧ c ≠ 38 ∧ c ≠ 61 ∧ c ≠ 63
  fits : OffsetsFit (genTree (declared.map Argument.name))
  sized : ∀ x ∈ declared, x.Sized
  inside : ∀ x ∈ declared, x.offset + x.size ≤ args.argsSize.toNat
  apart : declared.Pairwise Argument.Apart

--------------------------------------------------
-- Fields
--------------------------------------------------

/-- The number in two bytes of a field. -/
def wordAt (chars : Int → UInt8) (i : Int) : UInt16 := (chars i).toUInt16 + (chars (i + 1)).toUInt16 * 256

/-- The field of an argument holds its value. -/
def Argument.Holds (x : Argument) (v : List UInt8) (chars : Int → UInt8) : Prop :=
  match x.ref.argType with
  | .ui8 => chars x.offset = UInt8.ofNat (numberFrom 0 v)
  | .ui16 => wordAt chars x.offset = UInt16.ofNat (numberFrom 0 v)
  | .str =>
      (∀ (i : Nat) c, (v.take (x.size - 1))[i]? = some c → chars (x.offset + i) = c)
        ∧ chars (x.offset + (v.take (x.size - 1)).length) = 0

/-- The field of an argument is clear. -/
def Argument.IsZero (x : Argument) (chars : Int → UInt8) : Prop := ∀ i, x.Covers i → chars i = 0

/-- The field while a value is read: the last byte of a string counts the room that is left. -/
def Argument.Reads (x : Argument) (v : List UInt8) (chars : Int → UInt8) : Prop :=
  match x.ref.argType with
  | .ui8 => chars x.offset = UInt8.ofNat (numberFrom 0 v)
  | .ui16 => wordAt chars x.offset = UInt16.ofNat (numberFrom 0 v)
  | .str =>
      (∀ (i : Nat) c, (v.take (x.size - 1))[i]? = some c → chars (x.offset + i) = c)
        ∧ (∀ i : Nat, v.length ≤ i → i < x.size - 1 → chars (x.offset + i) = 0)
        ∧ chars (x.offset + (x.size - 1 : Nat)) = UInt8.ofNat (x.size - 1 - v.length)

section Fields

variable {x : Argument} {v : List UInt8} {c : UInt8} {chars chars' : Int → UInt8}

theorem Argument.Reads.holds (reads : x.Reads v chars) : x.Holds v chars := by
  unfold Reads at reads
  unfold Holds
  cases type : x.ref.argType with
  | ui8 | ui16 =>
      rw [type] at reads
      exact reads
  | str =>
      rw [type] at reads
      obtain ⟨stored, clear, room⟩ := reads
      refine ⟨stored, ?_⟩
      rw [List.length_take]
      by_cases short : v.length < x.size - 1
      · rw [Nat.min_eq_right (Nat.le_of_lt short)]
        exact clear _ (Nat.le_refl _) short
      · rw [Nat.min_eq_left (Nat.not_lt.mp short), room, Nat.sub_eq_zero_of_le (Nat.not_lt.mp short)]
        rfl

/-- A field looks at its own bytes. -/
theorem Argument.Holds.congr (sized : x.Sized) (holds : x.Holds v chars) (same : ∀ i, x.Covers i → chars' i = chars i)
    : x.Holds v chars' := by
  unfold Holds at *
  unfold Sized at sized
  cases type : x.ref.argType with
  | ui8 =>
      rw [type] at holds sized
      dsimp only at sized ⊢
      rw [same _ ⟨Int.le_refl _, by omega⟩]
      exact holds
  | ui16 =>
      rw [type] at holds sized
      dsimp only at sized ⊢
      rw [wordAt, same _ ⟨Int.le_refl _, by omega⟩, same _ ⟨by omega, by omega⟩]
      exact holds
  | str =>
      rw [type] at holds sized
      obtain ⟨stored, ended⟩ := holds
      dsimp only at sized ⊢
      have short := List.length_take_le (x.size - 1) v
      refine ⟨fun i c here => ?_, ?_⟩
      · have lt := (List.getElem?_eq_some_iff.mp here).1
        rw [same _ ⟨by omega, by omega⟩]
        exact stored i c here
      · rw [same _ ⟨by omega, by omega⟩]
        exact ended

theorem Argument.IsZero.congr (zero : x.IsZero chars) (same : ∀ i, x.Covers i → chars' i = chars i) : x.IsZero chars' :=
  fun i covers => (same i covers).trans (zero i covers)

theorem numberFrom_concat (v : List UInt8) (c : UInt8)
    : numberFrom 0 (v ++ [c]) = numberFrom 0 v * 10 + (c.toNat - 48) := by
  rw [numberFrom, List.foldl_append, List.foldl_cons, List.foldl_nil, ← numberFrom]

end Fields

--------------------------------------------------
-- Stores
--------------------------------------------------

/-- A block with other characters. -/
def fill (h : Heap) (a : Addr) (chars : Int → UInt8) : Heap := { h with chars := Function.update h.chars a chars }

section Stores

variable {h : Heap} {a : Addr} {i : Int} {c : UInt8} {chars chars' : Int → UInt8}

@[simp] theorem fill_chars : (fill h a chars).chars a = chars := by
  simp only [fill, Function.update_self]

@[simp] theorem fill_size : (fill h a chars).size = h.size := rfl

@[simp] theorem fill_calls : (fill h a chars).calls = h.calls := rfl

@[simp] theorem fill_fill : fill (fill h a chars) a chars' = fill h a chars' := by
  simp only [fill, Function.update_idem]

theorem poke_fill (inside : 0 ≤ i ∧ i < (h.size a).toNat)
    : h.poke a i c = some (fill h a (Function.update (h.chars a) i c)) :=
  if_pos inside

/-- The two bytes of a number. -/
theorem wordAt_stored (n : UInt16)
    : wordAt (Function.update (Function.update chars i n.toUInt8) (i + 1) (n >>> 8).toUInt8) i = n := by
  rw [wordAt, Function.update_self, Function.update_of_ne (by omega), Function.update_self]
  have small := n.toNat_lt
  rw [← UInt16.toNat_inj, UInt16.toNat_add, UInt16.toNat_mul, UInt8.toNat_toUInt16, UInt8.toNat_toUInt16,
    UInt16.toNat_toUInt8, UInt16.toNat_toUInt8, UInt16.toNat_shiftRight]
  simp only [UInt16.reduceToNat, Nat.reduceMod, Nat.shiftRight_eq_div_pow, Nat.reducePow]
  omega

variable {s : Parse} {x : Argument} {v : List UInt8}

/-- A digit in a number of one byte. -/
theorem digit8 (low : 48 ≤ c) (n : Nat) : UInt8.ofNat n * 10 + (c - 48) = UInt8.ofNat (n * 10 + (c.toNat - 48)) := by
  rw [UInt8.le_iff_toNat_le] at low
  rw [← UInt8.toNat_inj]
  simp only [UInt8.toNat_add, UInt8.toNat_mul, UInt8.toNat_ofNat', UInt8.toNat_sub, UInt8.reduceToNat,
    Nat.reducePow] at low ⊢
  omega

/-- A digit in a number of two bytes. -/
theorem digit16 (low : 48 ≤ c) (n : Nat)
    : UInt16.ofNat n * 10 + (c.toUInt16 - 48) = UInt16.ofNat (n * 10 + (c.toNat - 48)) := by
  rw [UInt8.le_iff_toNat_le] at low
  rw [← UInt16.toNat_inj]
  simp only [UInt16.toNat_add, UInt16.toNat_mul, UInt16.toNat_ofNat', UInt16.toNat_sub, UInt16.reduceToNat,
    UInt8.toNat_toUInt16, UInt8.reduceToNat, Nat.reducePow] at low ⊢
  omega

/-- A byte of a value is stored in the field of its argument. -/
theorem storeValue_reads (sized : x.Sized) (inside : x.offset + x.size ≤ (s.heap.size a).toNat)
    (current : s.request.currArg = x.offset) (reads : x.Reads v (s.heap.chars a))
    (digit : x.ref.argType ≠ .str → 48 ≤ c)
    : ∃ chars, storeValue x.ref c a s = some { s with heap := fill s.heap a chars } ∧ x.Reads (v ++ [c]) chars
      ∧ ∀ i, ¬ x.Covers i → chars i = s.heap.chars a i := by
  unfold Argument.Reads at reads
  unfold Argument.Sized at sized
  unfold storeValue Argument.Reads
  rw [current]
  cases type : x.ref.argType with
  | ui8 =>
      rw [type] at reads sized digit
      dsimp only at reads sized ⊢
      refine ⟨Function.update (s.heap.chars a) x.offset (s.heap.chars a x.offset * 10 + (c - 48)), ?_, ?_,
        fun i outside => ?_⟩
      · rw [poke_fill ⟨by omega, by omega⟩]
        rfl
      · rw [Function.update_self, reads, numberFrom_concat, digit8 (digit ArgType.noConfusion)]
      · exact Function.update_of_ne (fun eq => outside ⟨by omega, by omega⟩) _ _
  | ui16 =>
      rw [type] at reads sized digit
      dsimp only at reads sized ⊢
      refine ⟨Function.update (Function.update (s.heap.chars a) x.offset
        (wordAt (s.heap.chars a) x.offset * 10 + (c.toUInt16 - 48)).toUInt8) (x.offset + 1)
        ((wordAt (s.heap.chars a) x.offset * 10 + (c.toUInt16 - 48)) >>> 8).toUInt8, ?_, ?_, fun i outside => ?_⟩
      · rw [poke_fill ⟨by omega, by omega⟩, Option.bind_eq_bind, Option.bind_some,
          poke_fill (by rw [fill_size]; exact ⟨by omega, by omega⟩), fill_chars, fill_fill]
        rfl
      · rw [wordAt_stored, reads, numberFrom_concat, digit16 (digit ArgType.noConfusion)]
      · rw [Function.update_of_ne (fun eq => outside ⟨by omega, by omega⟩),
          Function.update_of_ne (fun eq => outside ⟨by omega, by omega⟩)]
  | str =>
      rw [type] at reads sized
      dsimp only at reads sized ⊢
      obtain ⟨stored, clear, room⟩ := reads
      have last : (x.offset + x.ref.argSize.toNat - 1 : Int) = x.offset + (x.size - 1 : Nat) := by
        rw [show x.ref.argSize.toNat = x.size from rfl]
        omega
      have below : x.size < 256 := x.ref.argSize.toNat_lt
      rw [last, room]
      by_cases full : x.size - 1 ≤ v.length
      · -- no room is left
        rw [Nat.sub_eq_zero_of_le full]
        refine ⟨s.heap.chars a, ?_, ⟨?_, ?_, ?_⟩, fun i _ => rfl⟩
        · simp [fill]
        · rw [List.take_append_of_le_length full]
          exact stored
        · intro i le lt
          rw [List.length_append, List.length_singleton] at le
          omega
        · rw [room, List.length_append, List.length_singleton, Nat.sub_eq_zero_of_le full,
            Nat.sub_eq_zero_of_le (by omega)]
      have left : (UInt8.ofNat (x.size - 1 - v.length)).toNat = x.size - 1 - v.length := by
        rw [UInt8.toNat_ofNat']
        exact Nat.mod_eq_of_lt (by omega)
      have some_left : UInt8.ofNat (x.size - 1 - v.length) ≠ 0 := by
        rw [ne_eq, ← UInt8.toNat_inj, left]
        exact Nat.sub_ne_zero_of_lt (Nat.not_le.mp full)
      have place : (x.offset + x.ref.argSize.toNat - (UInt8.ofNat (x.size - 1 - v.length)).toNat - 1 : Int)
          = x.offset + v.length := by
        rw [left, show x.ref.argSize.toNat = x.size from rfl]
        omega
      have apart : (x.offset + (x.size - 1 : Nat) : Int) ≠ x.offset + v.length := by omega
      have less : UInt8.ofNat (x.size - 1 - v.length) - 1 = UInt8.ofNat (x.size - 1 - (v ++ [c]).length) := by
        rw [← UInt8.toNat_inj, UInt8.toNat_sub_of_le _ _ (by rw [UInt8.le_iff_toNat_le, left]; simp; omega), left,
          UInt8.toNat_ofNat', List.length_append, List.length_singleton, Nat.mod_eq_of_lt (by omega)]
        simp only [UInt8.reduceToNat]
        omega
      have whole : v.take (x.size - 1) = v := List.take_of_length_le (by omega)
      have whole' : (v ++ [c]).take (x.size - 1) = v ++ [c] := by
        refine List.take_of_length_le ?_
        rw [List.length_append, List.length_singleton]
        omega
      rw [whole] at stored
      rw [place]
      refine ⟨Function.update (Function.update (s.heap.chars a) (x.offset + v.length) c) (x.offset + (x.size - 1 : Nat))
        (UInt8.ofNat (x.size - 1 - (v ++ [c]).length)), ?_, ⟨fun i d here => ?_, fun i le lt => ?_, ?_⟩,
        fun i outside => ?_⟩
      · rw [if_neg some_left, poke_fill ⟨by omega, by omega⟩, Option.bind_eq_bind, Option.bind_some,
          poke_fill (by rw [fill_size]; exact ⟨by omega, by omega⟩), fill_chars, fill_fill,
          Function.update_of_ne apart, room, less]
        rfl
      · rw [whole'] at here
        have lt := (List.getElem?_eq_some_iff.mp here).1
        rw [List.length_append, List.length_singleton] at lt
        rw [Function.update_of_ne (by omega)]
        by_cases new : i = v.length
        · subst new
          rw [List.getElem?_concat_length, Option.some.injEq] at here
          rw [Function.update_self, here]
        · rw [List.getElem?_append_left (by omega)] at here
          rw [Function.update_of_ne (by omega)]
          exact stored i d here
      · rw [List.length_append, List.length_singleton] at le
        rw [Function.update_of_ne (by omega), Function.update_of_ne (by omega)]
        exact clear i (by omega) lt
      · rw [Function.update_self]
      · rw [Function.update_of_ne (fun eq => outside ⟨by omega, by omega⟩),
          Function.update_of_ne (fun eq => outside ⟨by omega, by omega⟩)]

end Stores

--------------------------------------------------
-- The block of the arguments
--------------------------------------------------

/-- Values that are or were read, by the arguments that they are for. -/
abbrev Values := List (Argument × List UInt8)

/-- The block while a query is read: the arguments that do not occur before are clear. -/
structure Contents (declared : List Argument) (values : Values) (current : Option (Argument × List UInt8))
    (chars : Int → UInt8)
    : Prop where
  known : ∀ e ∈ values, e.1 ∈ declared
  held : ∀ e ∈ values, e.1.Holds e.2 chars
  reading : ∀ e ∈ current, e.1.Reads e.2 chars
  others : ∀ x ∈ declared, x ∉ values.map Prod.fst → (∀ e ∈ current, e.1 ≠ x) → x.IsZero chars

section Contents

variable {args : HandlerArgs} {declared : List Argument} {values : Values} {current : Option (Argument × List UInt8)}
  {x y : Argument} {v v' : List UInt8} {chars chars' : Int → UInt8}

theorem Declares.covers (declares : Declares args declared) (mem : x ∈ declared) (mem' : y ∈ declared) (other : y ≠ x)
    {i : Int} (covers : y.Covers i)
    : ¬ x.Covers i := by
  intro own
  have apart := declares.apart.forall mem mem' other.symm
  unfold Argument.Apart at apart
  unfold Argument.Covers at covers own
  omega

/-- Only the field of one argument changes. -/
theorem Contents.moved (contents : Contents declared values current chars) (declares : Declares args declared)
    (mem : x ∈ declared) (unread : x ∉ values.map Prod.fst) (own : ∀ e ∈ current, e.1 = x) (reads : x.Reads v chars')
    (others : ∀ i, ¬ x.Covers i → chars' i = chars i)
    : Contents declared values (some (x, v)) chars' := by
  have same (y : Argument) (mem' : y ∈ declared) (other : y ≠ x) (i : Int) (covers : y.Covers i) : chars' i = chars i :=
    others i (declares.covers mem mem' other covers)
  refine ⟨contents.known, fun e here => ?_, ?_, fun y mem' behind other => ?_⟩
  · have other : e.1 ≠ x := fun eq => unread (eq ▸ List.mem_map_of_mem here)
    have declared := contents.known e here
    exact (contents.held e here).congr (declares.sized _ declared) (same _ declared other)
  · rintro e ⟨rfl⟩
    exact reads
  · have apart : y ≠ x := fun eq => other (x, v) rfl eq.symm
    refine (contents.others y mem' behind fun e here => ?_).congr (same y mem' apart)
    rw [own e here]
    exact apart.symm

/-- A value ends. -/
theorem Contents.ended (contents : Contents declared values (some (x, v)) chars) (mem : x ∈ declared)
    : Contents declared (values ++ [(x, v)]) none chars := by
  refine ⟨fun e here => ?_, fun e here => ?_, fun e here => ?_, fun y mem' behind _ => ?_⟩
  · rw [List.mem_append, List.mem_singleton] at here
    rcases here with here | rfl
    · exact contents.known e here
    · exact mem
  · rw [List.mem_append, List.mem_singleton] at here
    rcases here with here | rfl
    · exact contents.held e here
    · exact (contents.reading _ rfl).holds
  · cases here
  · rw [List.map_append, List.mem_append, not_or] at behind
    refine contents.others y mem' behind.1 ?_
    rintro e ⟨rfl⟩
    exact fun eq => behind.2 (eq ▸ List.mem_singleton_self _)

end Contents

--------------------------------------------------
-- The names
--------------------------------------------------

section Names

variable {p : Program} {s : Parse} {args : HandlerArgs} {declared : List Argument} {x : Argument} {i : Nat}
  {place place' : Place} {w : List UInt8}

theorem Declares.name_char (declares : Declares args declared) {name : Symbol} (mem : name ∈ declared.map Argument.name)
    {c : UInt8} (char : c ∈ name)
    : (32 < c ∧ c < 127) ∧ c ≠ 38 ∧ c ≠ 61 ∧ c ≠ 63 := by
  obtain ⟨x, here, rfl⟩ := List.mem_map.mp mem
  exact declares.named x here c char

theorem Declares.is_table (declares : Declares args declared) : SymbolTable (declared.map Argument.name) where
  inhabited := by
    rw [ne_eq, List.map_eq_nil_iff]
    exact declares.inhabited
  accepted := by
    refine ⟨fun name mem => ?_, declares.distinct⟩
    obtain ⟨x, here, rfl⟩ := List.mem_map.mp mem
    exact declares.nonempty x here
  spelled := by
    intro name mem
    refine ⟨fun c char => ?_, fun c char => ?_⟩
    · obtain ⟨⟨low, high⟩, -⟩ := declares.name_char mem (List.dropLast_subset _ char)
      exact ⟨UInt8.le_of_lt low, UInt8.lt_trans high (by decide)⟩
    · exact UInt8.le_of_lt (declares.name_char mem (List.mem_of_getLast? char)).1.1
  few := by
    rw [List.length_map]
    exact Nat.le_succ_of_le declares.few
  fits := declares.fits

theorem Place.Good.search (good : place.Good) (found : place.search w = some place') : place'.Good := by
  induction w generalizing place with
  | nil =>
      cases found
      exact good
  | cons d w ih =>
      obtain ⟨next, read, found⟩ := Option.bind_eq_some_iff.mp found
      exact ih (good.read read) found

/-- The first byte of a subtree that spells no mark. -/
theorem blobRec_head_low {t : Ternary} (walkable : Walkable t) (present : t ≠ .absent)
    (plain : ∀ e ∈ t.entries, ∀ c ∈ e.1, c < 128)
    : ∃ b more, blobRec t = b :: more ∧ b < 128 := by
  cases walkable with
  | absent => exact absurd rfl present
  | @node s c ref inf eq sup _ _ _ _ low last marked small _ =>
      rw [blobRec_node]
      cases s with
      | cons b s => exact ⟨b, _, rfl, (low b List.mem_cons_self).2⟩
      | nil =>
          refine ⟨c, _, rfl, UInt8.not_le.mp fun high => ?_⟩
          obtain ⟨r, some⟩ := Option.ne_none_iff_exists'.mp (marked high)
          have here : ([c], r) ∈ (Ternary.node ([] ++ [c]) ref inf eq sup).entries := by
            rw [entries_node, some]
            simp [own, under]
          exact absurd (plain _ here c (List.mem_singleton_self c)) (UInt8.not_lt.mpr high)

/-- The search of a declared name ends at its reference, with a byte behind it that is no reference. -/
theorem Declares.found (declares : Declares args declared) (here : declared[i]? = some x)
    : ∃ inf eq sup, (Place.tree (genTree (declared.map Argument.name))).search x.name = some (.ref i inf eq sup)
      ∧ ∃ b more, links inf eq sup = b :: more ∧ b < 128 := by
  have is_table := declares.is_table
  obtain ⟨walkable, present⟩ := is_table.walkable
  obtain ⟨shaped, entries, -⟩ := genTree_compacted is_table.accepted is_table.inhabited
  have word (v : Symbol) (j : Nat) : (v, j) ∈ (genTree (declared.map Argument.name)).entries
      ↔ (declared.map Argument.name)[j]? = some v := by
    rw [entries, mem_sortedSymbols]
  have mem : (x.name ++ [], i) ∈ (Place.tree (genTree (declared.map Argument.name))).entries := by
    rw [List.append_nil]
    exact (word x.name i).mpr (by rw [List.getElem?_map, here, Option.map_some])
  obtain ⟨found, missed⟩ := (Place.Searchable.tree shaped).search_finds x.name
  cases search : (Place.tree (genTree (declared.map Argument.name))).search x.name with
  | none => exact absurd mem (missed search [] i)
  | some place =>
      obtain ⟨searchable, suffixes⟩ := found place search
      have good := (Place.Good.tree walkable present).search search
      cases searchable with
      | @tree t shaped' => exact absurd ((suffixes [] i).mp mem) (tree_words shaped' i)
      | @ref r inf eq sup eq_shaped =>
          obtain rfl := (own_words eq_shaped i).mp ((suffixes [] i).mp mem)
          refine ⟨inf, eq, sup, rfl, ?_⟩
          cases good with
          | ref small _ eq_walkable _ left offsets =>
              by_cases flagged : inf ≠ .absent ∨ eq = .absent
              · obtain ⟨b, more, same, low, -⟩ := turnAt_links (d := 0) (c := 1) [] left offsets flagged (by decide)
                exact ⟨b, more, same, UInt8.lt_trans low (by decide)⟩
              · obtain ⟨present', -, -, same⟩ := links_unflagged left flagged
                rw [same]
                refine blobRec_head_low eq_walkable present' fun e mem' c char => ?_
                have longer := (suffixes e.1 e.2).mpr (List.mem_append_right _ mem')
                have named := List.mem_of_getElem? ((word _ _).mp longer)
                exact UInt8.lt_trans (declares.name_char named (List.mem_append_right _ char)).1.2 (by decide)

end Names

--------------------------------------------------
-- The turns of the parser in a query
--------------------------------------------------

/-- The parser reads the arguments of a resource into a block. -/
structure InQuery (p : Program) (r : Nat) (a : Addr) (calls : List MemCall) (s : Parse) : Prop where
  state : s.request.parsingState = .url
  selected : s.outputHandler = some (.resource r)
  block : s.request.args = .block a
  no_boundary : s.boundary = none
  size : s.heap.size a = (p.resource r).args.argsSize
  calls : s.heap.calls = calls
  unmarked : s.request.postUrlDetected = false
  not_ready : s.request.readyToSend = false

section Turns

variable {p : Program} {s : Parse} {r : Nat} {a : Addr} {calls : List MemCall} {declared : List Argument}
  {values : Values} {x : Argument} {v : List UInt8} {i : Nat} {c b : UInt8} (rest : List UInt8) (fuel : Nat)

/-- What the block holds, where the arrays are read and which argument is read are left open. -/
theorem InQuery.elsewhere (query : InQuery p r a calls s) (index : UInt8) (currArg : Nat)
    (chars : Addr → Int → UInt8) (blob : List UInt8)
    : InQuery p r a calls { s with
      request := { s.request with argRefIndex := index, currArg }
      heap := { s.heap with chars }
      blob
    } :=
  ⟨query.state, query.selected, query.block, query.no_boundary, query.size, query.calls, query.unmarked,
    query.not_ready⟩

theorem InQuery.unfailed (query : InQuery p r a calls s) : s.outputHandler.any HandlerRef.isError = false := by
  rw [query.selected]
  rfl

/-- A name is read, by induction on it. -/
theorem name_read {place place' : Place} {tail w : List UInt8} (query : InQuery p r a calls s)
    (no_value : s.request.argRefIndex = 128) (good : place.Good) (searchable : place.Searchable)
    (low : ∀ e ∈ place.entries, e.2 < 127) (clear : place.ClearAlong true w) (chars : ∀ c ∈ w, c ≠ 32 ∧ c ≠ 61)
    (blob : s.blob = place.bytes ++ tail) (found : place.search w = some place')
    : ∃ tail', parseLoop p (w.length + fuel) s (w ++ rest)
      = parseLoop p fuel { s with blob := place'.bytes ++ tail' } rest := by
  induction w generalizing s place tail with
  | nil =>
      cases found
      refine ⟨tail, ?_⟩
      rw [← blob, List.length_nil, Nat.zero_add, List.nil_append]
  | cons d w ih =>
      obtain ⟨next, read, found⟩ := Option.bind_eq_some_iff.mp found
      obtain ⟨clear_here, clear_next⟩ := clear.resolve_right fun get => absurd get.1 (by decide)
      obtain ⟨no_space, no_equals⟩ := chars d List.mem_cons_self
      obtain ⟨tail', turned⟩ := (url_byte (p := p) (w ++ rest) query.state query.no_boundary no_value good low
        clear_here no_space (fun eq => absurd eq no_equals) blob).1 next read
      obtain ⟨searchable', suffixes⟩ := (searchable.read_finds d).found next read
      obtain ⟨tail'', looped⟩ := ih (query.elsewhere _ _ _ (next.bytes ++ tail')) no_value (good.read read)
        searchable'
        (fun e mem => low (d :: e.1, e.2) ((suffixes e.1 e.2).mpr mem)) (clear_next next read)
        (fun c mem => chars c (List.mem_cons_of_mem d mem)) rfl found
      refine ⟨tail'', ?_⟩
      rw [List.length_cons, Nat.add_right_comm, List.cons_append, parseLoop_turns query.unfailed, turned]
      exact looped

/-- A turn with a byte of a query. -/
theorem InQuery.turn (query : InQuery p r a calls s) (curr : s.blob.head? = some b)
    : parseTurn p s (c :: rest)
      = match Flow.andThen (atReference p c b s) (afterReference p c) with
        | none => none
        | some (.input s) => parsePostData p s rest
        | some flow => some (flow, rest) :=
  parseTurn_url query.state query.no_boundary curr

/-- The parser reads the value of an argument. -/
structure InValue (p : Program) (r : Nat) (a : Addr) (calls : List MemCall) (declared : List Argument) (values : Values)
    (x : Argument) (i : Nat) (v : List UInt8) (s : Parse)
    : Prop where
  query : InQuery p r a calls s
  index : s.request.argRefIndex = UInt8.ofNat i
  current : s.request.currArg = x.offset
  contents : Contents declared values (some (x, v)) (s.heap.chars a)

/-- The array at a reference, where the value begins. -/
def AtStart (i : Nat) (s : Parse) : Prop := ∃ b more, s.blob = (128 + UInt8.ofNat i) :: b :: more ∧ b < 128

/-- The array behind the reference. -/
def BehindStart (s : Parse) : Prop := ∃ b more, s.blob = b :: more ∧ b < 128

theorem index_small (small : i < 127) : (128 + UInt8.ofNat i : UInt8) ≠ 255 ∧ UInt8.ofNat i ≠ 128
    ∧ (UInt8.ofNat i).toNat = i := by
  have toNat : (UInt8.ofNat i).toNat = i := by
    rw [UInt8.toNat_ofNat']
    exact Nat.mod_eq_of_lt (by omega)
  refine ⟨?_, ?_, toNat⟩
  · rw [ne_eq, ← UInt8.toNat_inj, UInt8.toNat_add, toNat]
    simp only [UInt8.reduceToNat, Nat.reducePow]
    omega
  · rw [ne_eq, ← UInt8.toNat_inj, toNat]
    simp only [UInt8.reduceToNat]
    omega

/-- Behind the reference of an argument a byte belongs to its value. -/
theorem afterReference_value (state : s.request.parsingState = .url) (value : s.request.argRefIndex ≠ 128)
    : afterReference p c b s = argumentValue p c s := by
  have detected : detectHeaderEnd c b s = s := by
    simp [detectHeaderEnd, state]
  rw [afterReference, detected, if_pos value]

/-- The reference of an argument. -/
theorem argRef_declared (declares : Declares (p.resource r).args declared) (query : InQuery p r a calls s)
    (here : declared[i]? = some x) (small : i < 127)
    : argRef p s (UInt8.ofNat i) = some x.ref := by
  rw [argRef, query.selected, Option.bind_eq_bind, Option.bind_some, (index_small small).2.2]
  show (p.resource r).args.argsIndex[i]? = some x.ref
  rw [declares.index, List.getElem?_map, here, Option.map_some]

/-- All of a string but its last byte is room. -/
theorem whole_room (sized : 0 < x.size) : x.ref.argSize - 1 = UInt8.ofNat (x.size - 1) := by
  have below : x.size < 256 := x.ref.argSize.toNat_lt
  rw [← UInt8.toNat_inj, UInt8.toNat_ofNat', Nat.mod_eq_of_lt (by omega), UInt8.toNat_sub_of_le]
  · rfl
  · rw [UInt8.le_iff_toNat_le]
    exact sized

/-- The field where a value begins: the last byte of a string counts the room. -/
def Argument.counted (x : Argument) (chars : Int → UInt8) : Int → UInt8 :=
  if x.ref.argType = .str then Function.update chars (x.offset + x.size - 1) (x.ref.argSize - 1) else chars

/-- The field of a value of which no byte was read. -/
theorem reads_nil {chars : Int → UInt8} (sized : x.Sized) (zero : x.IsZero chars)
    : x.Reads [] (x.counted chars) := by
  unfold Argument.Sized at sized
  unfold Argument.counted Argument.Reads
  cases type : x.ref.argType with
  | ui8 =>
      rw [type] at sized
      dsimp only at sized
      rw [if_neg ArgType.noConfusion]
      exact zero _ ⟨by omega, by omega⟩
  | ui16 =>
      rw [type] at sized
      dsimp only at sized
      rw [if_neg ArgType.noConfusion]
      dsimp only
      rw [wordAt, zero _ ⟨by omega, by omega⟩, zero _ ⟨by omega, by omega⟩]
      rfl
  | str =>
      rw [type] at sized
      dsimp only at sized
      rw [if_pos rfl]
      refine ⟨fun i c here => ?_, fun i _ lt => ?_, ?_⟩
      · rw [List.take_nil] at here
        cases here
      · rw [Function.update_of_ne (by omega)]
        exact zero _ ⟨by omega, by omega⟩
      · rw [show (x.offset + (x.size - 1 : Nat) : Int) = x.offset + x.size - 1 by omega, Function.update_self,
          List.length_nil, Nat.sub_zero, whole_room sized]

/-- The room of a string is counted anew. -/
theorem reads_again {chars : Int → UInt8} (sized : x.Sized) (reads : x.Reads [] chars)
    : x.Reads [] (x.counted chars) := by
  unfold Argument.counted
  by_cases string : x.ref.argType = .str
  · rw [if_pos string, Function.update_eq_self_iff.mpr]
    · exact reads
    · unfold Argument.Sized at sized
      unfold Argument.Reads at reads
      rw [string] at sized reads
      dsimp only at sized
      rw [show (x.offset + x.size - 1 : Int) = x.offset + (x.size - 1 : Nat) by omega, whole_room sized, reads.2.2,
        List.length_nil, Nat.sub_zero]
  · rw [if_neg string]
    exact reads

/-- A byte `=` at the reference of an argument begins its value. -/
theorem equals_read {current : Option (Argument × List UInt8)} (declares : Declares (p.resource r).args declared)
    (query : InQuery p r a calls s) (here : declared[i]? = some x) (unread : x ∉ values.map Prod.fst)
    (at_start : AtStart i s) (contents : Contents declared values current (s.heap.chars a))
    (begins : ∀ e ∈ current, e = (x, []))
    : ∃ s', parseTurn p s (61 :: rest) = some (.again s', rest) ∧ AtStart i s'
      ∧ InValue p r a calls declared values x i [] s' := by
  have mem := List.mem_of_getElem? here
  have small : i < 127 := Nat.lt_of_lt_of_le (List.getElem?_eq_some_iff.mp here).1 declares.few
  have sized := declares.sized x mem
  have own (e : Argument × List UInt8) (same : e ∈ current) : e.1 = x := congrArg Prod.fst (begins e same)
  have inside := declares.inside x mem
  rw [← query.size] at inside
  obtain ⟨b, more, blob, low⟩ := at_start
  have stage : resourceOrArgument p 61 (128 + UInt8.ofNat i) s = beginValue p (128 + UInt8.ofNat i) a s := by
    rw [resourceOrArgument, if_neg (by decide), if_neg (by simp [query.state]), query.block]
    rfl
  rw [query.turn _ (by rw [blob]; rfl), url_at_reference query.state (ref_high (by omega)) (index_small small).1, stage,
    beginValue, ref_sub, argRef_declared declares query here small, Option.bind_eq_bind, Option.bind_some]
  have reads : x.Reads [] (x.counted (s.heap.chars a)) := by
    cases current with
    | none => exact reads_nil sized (contents.others x mem unread fun e same => by cases same)
    | some e =>
        obtain rfl := begins e rfl
        exact reads_again sized (contents.reading _ rfl)
  unfold Argument.counted at reads
  by_cases string : x.ref.argType = .str
  · rw [if_pos string] at reads
    unfold Argument.Sized at sized
    rw [string] at sized ⊢
    dsimp only at sized ⊢
    have place : (x.ref.argOffset.toNat + x.ref.argSize.toNat - 1 : Int) = x.offset + x.size - 1 := rfl
    rw [place, poke_fill ⟨by omega, by omega⟩]
    refine ⟨_, rfl, ⟨b, more, blob, low⟩, query.elsewhere _ _ _ _, rfl, rfl, ?_⟩
    dsimp only
    rw [fill_chars]
    refine contents.moved declares mem unread own reads fun j outside => ?_
    exact Function.update_of_ne (fun eq => outside ⟨by omega, by omega⟩) _ _
  · rw [if_neg string] at reads
    refine ⟨{ s with request := { s.request with argRefIndex := UInt8.ofNat i, currArg := x.offset } }, ?_,
      ⟨b, more, blob, low⟩, query.elsewhere _ _ _ _, rfl, rfl,
      contents.moved declares mem unread own reads fun _ _ => rfl⟩
    cases type : x.ref.argType with
    | str => exact absurd type string
    | ui8 | ui16 => rfl

variable (declares : Declares (p.resource r).args declared) (value : InValue p r a calls declared values x i v s)
  (here : declared[i]? = some x) (unread : x ∉ values.map Prod.fst)

include declares value here

/-- The reference of the value is the one that the request remembers. -/
theorem InValue.remembered : s.request.argRefIndex ≠ 128 := by
  have small : i < 127 := Nat.lt_of_lt_of_le (List.getElem?_eq_some_iff.mp here).1 declares.few
  rw [value.index]
  exact (index_small small).2.1

include unread

theorem argumentValue_stored (inner : c ≠ 38 ∧ c ≠ 32) (digit : x.ref.argType ≠ .str → 48 ≤ c)
    : ∃ s', argumentValue p c s = some (.again s') ∧ s'.blob = s.blob
      ∧ InValue p r a calls declared values x i (v ++ [c]) s' := by
  obtain ⟨query, index, current, contents⟩ := value
  have mem := List.mem_of_getElem? here
  have small : i < 127 := Nat.lt_of_lt_of_le (List.getElem?_eq_some_iff.mp here).1 declares.few
  have inside := declares.inside x mem
  rw [← query.size] at inside
  obtain ⟨chars, stored, reads, others⟩ := storeValue_reads (declares.sized x mem) inside current
    (contents.reading _ rfl) digit
  refine ⟨{ s with heap := fill s.heap a chars }, ?_, rfl, query.elsewhere _ _ _ _, index, current, ?_⟩
  · rw [argumentValue, if_neg inner.1, if_neg inner.2, index, argRef_declared declares query here small,
      Option.bind_eq_bind, Option.bind_some, query.block]
    dsimp only
    rw [stored]
    rfl
  · dsimp only
    rw [fill_chars]
    exact contents.moved declares mem unread (fun e same => by cases same; rfl) reads others

/-- A byte of a value. -/
theorem value_byte (place : AtStart i s ∧ c ≠ 61 ∧ c ≠ 63 ∨ BehindStart s) (inner : c ≠ 38 ∧ c ≠ 32)
    (digit : x.ref.argType ≠ .str → 48 ≤ c)
    : ∃ s', parseTurn p s (c :: rest) = some (.again s', rest) ∧ BehindStart s'
      ∧ InValue p r a calls declared values x i (v ++ [c]) s' := by
  have query := value.query
  have remembered := value.remembered declares here
  have small : i < 127 := Nat.lt_of_lt_of_le (List.getElem?_eq_some_iff.mp here).1 declares.few
  rcases place with ⟨⟨b, more, blob, low⟩, no_equals, no_args⟩ | ⟨b, more, blob, low⟩
  · have behind : s.blob.drop 1 = b :: more := by rw [blob]; rfl
    have moved : InValue p r a calls declared values x i v { s with blob := b :: more } :=
      ⟨query.elsewhere _ _ _ _, value.index,
        value.current, value.contents⟩
    obtain ⟨s', stored, blob', value'⟩ := argumentValue_stored declares moved here unread inner digit
    refine ⟨s', ?_, ⟨b, more, blob', low⟩, value'⟩
    rw [query.turn _ (by rw [blob]; rfl), url_at_reference query.state (ref_high (by omega)) (index_small small).1,
      resourceOrArgument_passes query.state inner.2 no_args inner.1 (fun equals => absurd equals no_equals) behind,
      Flow.andThen, afterReference_value (by exact query.state) (by exact remembered), stored]
  · obtain ⟨s', stored, blob', value'⟩ := argumentValue_stored declares value here unread inner digit
    refine ⟨s', ?_, ⟨b, more, blob'.trans blob, low⟩, value'⟩
    rw [query.turn _ (by rw [blob]; rfl), atReference, if_pos low, Flow.andThen,
      afterReference_value query.state remembered, stored]

/-- The bytes of a value behind the first one, by induction on them. -/
theorem value_rest {w : List UInt8} (behind : BehindStart s) (inner : ∀ c ∈ w, c ≠ 38 ∧ c ≠ 32)
    (digit : x.ref.argType ≠ .str → ∀ c ∈ w, 48 ≤ c)
    : ∃ s', parseLoop p (w.length + fuel) s (w ++ rest) = parseLoop p fuel s' rest ∧ BehindStart s'
      ∧ InValue p r a calls declared values x i (v ++ w) s' := by
  induction w generalizing s v with
  | nil =>
      refine ⟨s, ?_, behind, ?_⟩
      · rw [List.length_nil, Nat.zero_add, List.nil_append]
      · rw [List.append_nil]
        exact value
  | cons c w ih =>
      obtain ⟨s', turned, behind', value'⟩ := value_byte (w ++ rest) declares value here unread (.inr behind)
        (inner c List.mem_cons_self) fun number => digit number c List.mem_cons_self
      obtain ⟨s'', looped, behind'', value''⟩ := ih value' behind' (fun d mem => inner d (List.mem_cons_of_mem c mem))
        fun number d mem => digit number d (List.mem_cons_of_mem c mem)
      refine ⟨s'', ?_, behind'', ?_⟩
      · rw [List.length_cons, Nat.add_right_comm, List.cons_append, parseLoop_turns value.query.unfailed, turned]
        exact looped
      · rw [List.append_assoc, List.singleton_append] at value''
        exact value''

omit unread

/-- The query goes on behind a value. -/
theorem value_next (place : AtStart i s ∨ BehindStart s)
    : ∃ s', parseTurn p s (38 :: rest) = some (.again s', rest) ∧ InQuery p r a calls s'
      ∧ s'.request.argRefIndex = 128 ∧ s'.blob = (p.resource r).args.argsTree
      ∧ Contents declared (values ++ [(x, v)]) none (s'.heap.chars a) := by
  have query := value.query
  have remembered := value.remembered declares here
  have small : i < 127 := Nat.lt_of_lt_of_le (List.getElem?_eq_some_iff.mp here).1 declares.few
  have finished (t : Parse) (selected : t.outputHandler = some (.resource r))
      : argumentValue p 38 t = some (.again { t with
        request := { t.request with argRefIndex := 128 }
        blob := (p.resource r).args.argsTree
      }) := by
    rw [argumentValue, if_pos rfl, selected]
    rfl
  refine ⟨{ s with
    request := { s.request with argRefIndex := 128 }
    blob := (p.resource r).args.argsTree
  }, ?_, query.elsewhere _ _ _ _, rfl, rfl,
    value.contents.ended (List.mem_of_getElem? here)⟩
  rcases place with ⟨b, more, blob, low⟩ | ⟨b, more, blob, low⟩
  · obtain ⟨walkable, present⟩ := declares.is_table.walkable
    obtain ⟨e, more', head, -⟩ := blobRec_head walkable present
    have tree : (p.resource r).args.argsTree = e :: more' := declares.tree.trans head
    have stage : resourceOrArgument p 38 (128 + UInt8.ofNat i) s
        = some (.next e { s with blob := (p.resource r).args.argsTree }) := by
      rw [resourceOrArgument, if_neg (by decide), if_neg (by simp [query.state]), query.block]
      have other : decide ((38 : UInt8) = 61) = false := by decide
      rw [other]
      dsimp only
      rw [if_pos rfl, query.selected, Option.bind_eq_bind, Option.bind_some]
      show Parse.reread { s with outputHandler := some (.resource r), blob := (p.resource r).args.argsTree } = _
      rw [Parse.reread, tree]
      rfl
    rw [query.turn _ (by rw [blob]; rfl), url_at_reference query.state (ref_high (by omega)) (index_small small).1,
      stage, Flow.andThen, afterReference_value (by exact query.state) (by exact remembered),
      finished { s with blob := (p.resource r).args.argsTree } query.selected]
  · rw [query.turn _ (by rw [blob]; rfl), atReference, if_pos low, Flow.andThen,
      afterReference_value query.state remembered, finished s query.selected]

/-- The query ends behind a byte of a value. -/
theorem value_last (behind : BehindStart s)
    : parseTurn p s (32 :: rest)
      = some (.leave { s with request := { s.request with readyToSend := true, parsingState := .ended } }, rest) := by
  have query := value.query
  obtain ⟨b, more, blob, low⟩ := behind
  rw [query.turn _ (by rw [blob]; rfl), atReference, if_pos low, Flow.andThen,
    afterReference_value query.state (value.remembered declares here), argumentValue, if_neg (by decide), if_pos rfl]

end Turns

end Smews.Input
