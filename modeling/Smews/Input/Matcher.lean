import Smews.Input.BlobWalk
import Smews.Library.Runs

/-! Where the matcher reads: the moves of `blob` through the generated arrays, and the condition under
which none of them leaves its array.
-/

namespace Smews.Input

open Smews.Tools Runs

--------------------------------------------------
-- Moves
--------------------------------------------------

/-- What the parser does with `blob`: it goes to the beginning of another array, it steps over the byte
at `blob`, or it walks with a byte of the request.
-/
inductive Move
  | enter (array : List UInt8)
  | skip
  | walk (c : UInt8)

/-- Where `blob` points after a move. A mismatch leaves it where it was; `none` stands for a read outside of
the array, or a loop that does not end.
-/
def move (blob : List UInt8) : Move → Option (List UInt8)
  | .enter array => some array
  | .skip => some (blob.drop 1)
  | .walk c =>
      match walk c blob.length blob with
      | none => none
      | some none => some blob
      | some (some blob) => some blob

/-- The read of `blob_curr` is inside the array, and so is every read of the walk of any byte. -/
structure ReadsInside (blob : List UInt8) : Prop where
  curr : blob ≠ []
  walk : ∀ c, move blob (.walk c) ≠ none

/-- `blob` enters generated arrays only, and `blob++` is taken at a reference, or at the mark before it,
that is not followed by flags.
-/
def Stays (arrays : List (List UInt8)) (blob : List UInt8) : Move → Prop
  | .enter array => array ∈ arrays
  | .skip => ∃ ref next rest, blob = ref :: next :: rest ∧ 128 ≤ ref ∧ 32 ≤ next
  | .walk _ => True

/-- A move in generated arrays. -/
def Moves (allowed : List UInt8 → Move → Prop) (blob : List UInt8) (m : Move) (blob' : List UInt8) : Prop :=
  allowed blob m ∧ move blob m = some blob'

--------------------------------------------------
-- The invariant
--------------------------------------------------

/-- `blob` points to a place of a tree. -/
def AtPlace (blob : List UInt8) : Prop := ∃ place tail, place.Good ∧ blob = Place.bytes place ++ tail

theorem SymbolTable.atPlace {symbols : List Symbol} (is_table : SymbolTable symbols)
    : AtPlace (genBlobTree symbols) := by
  obtain ⟨walkable, present⟩ := is_table.walkable
  exact ⟨.tree (genTree symbols), [], .tree walkable present, (List.append_nil _).symm⟩

theorem AtPlace.readsInside {blob : List UInt8} (at_place : AtPlace blob) : ReadsInside blob := by
  obtain ⟨place, tail, good, rfl⟩ := at_place
  refine ⟨List.append_ne_nil_of_left_ne_nil good.bytes_ne_nil tail, fun c => ?_⟩
  have walks := good.walks c tail
  rw [move]
  cases next : place.step c with
  | none =>
      rw [next] at walks
      rw [show walk c _ _ = some none from walks]
      exact Option.some_ne_none _
  | some place' =>
      rw [next] at walks
      obtain ⟨tail', walked⟩ := walks
      rw [walked]
      exact Option.some_ne_none _

/-- A move that stays in the arrays ends at a place again. -/
theorem AtPlace.moves {arrays : List (List UInt8)} (roots : ∀ array ∈ arrays, AtPlace array)
    {blob blob' : List UInt8} {m : Move} (at_place : AtPlace blob) (moved : Moves (Stays arrays) blob m blob')
    : AtPlace blob' := by
  obtain ⟨stays, moved⟩ := moved
  cases m with
  | enter array =>
      cases moved
      exact roots _ stays
  | skip =>
      obtain ⟨place, tail, good, rfl⟩ := at_place
      obtain ⟨ref, next, rest, array, high, no_flag⟩ := stays
      obtain ⟨place', passes, behind⟩ := good.skips array high no_flag
      rw [array] at moved
      cases moved
      exact ⟨place', tail, good.passes passes, behind⟩
  | walk c =>
      have here := at_place
      obtain ⟨place, tail, good, rfl⟩ := at_place
      have walks := good.walks c tail
      rw [move] at moved
      cases next : place.step c with
      | none =>
          rw [next] at walks
          rw [show walk c _ _ = some none from walks] at moved
          cases moved
          exact here
      | some place' =>
          rw [next] at walks
          obtain ⟨tail', walked⟩ := walks
          rw [walked] at moved
          cases moved
          exact ⟨place', tail', good.step next, rfl⟩

/-- The URLs `/` and `/a`. -/
def nestedUrls : List Symbol := [[47], [47, 97]]

theorem nestedUrls_table : SymbolTable nestedUrls where
  inhabited := by decide
  accepted := ⟨by decide, by decide⟩
  spelled := by decide
  few := by decide
  fits := by decide

theorem nestedUrls_array : genBlobTree nestedUrls = [47, 128, 97, 129, 0] := by decide

/-- `blob` enters generated arrays only, and `blob++` is taken at a reference. -/
def AtReferences (arrays : List (List UInt8)) (blob : List UInt8) : Move → Prop
  | .enter array => array ∈ arrays
  | .skip => ∃ ref rest, blob = ref :: rest ∧ 128 ≤ ref
  | .walk _ => True

def singleUrl : List Symbol := [[47, 97]]

theorem singleUrl_table : SymbolTable singleUrl where
  inhabited := by decide
  accepted := ⟨by decide, by decide⟩
  spelled := by decide
  few := by decide
  fits := by decide

theorem singleUrl_array : genBlobTree singleUrl = [47, 97, 128, 0] := by decide

end Smews.Input
