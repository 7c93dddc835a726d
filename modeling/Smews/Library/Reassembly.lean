import Mathlib.Data.List.Infix
import Mathlib.Data.Nat.Basic

/-! A stream that reaches its receiver in pieces, which may be lost, repeated and reordered on their way.
-/

namespace Reassembly

variable {α : Type}

/-- Some elements of a stream, with the position of the first one. -/
structure Piece (α : Type) where
  position : Nat
  elements : List α

/-- The position behind a piece. -/
def Piece.stop (piece : Piece α) : Nat := piece.position + piece.elements.length

/-- A piece holds what its stream has at its position. -/
structure Piece.Of (piece : Piece α) (stream : List α) : Prop where
  inside : piece.stop ≤ stream.length
  elements : piece.elements = (stream.drop piece.position).take piece.elements.length

/-- What a receiver has after a piece. Nothing is kept of a piece behind a gap. -/
def accept (received : List α) (piece : Piece α) : List α :=
  if piece.position ≤ received.length then
    received ++ piece.elements.drop (received.length - piece.position)
  else received

theorem prefix_accept (received : List α) (piece : Piece α) : received <+: accept received piece := by
  unfold accept
  split
  · exact List.prefix_append _ _
  · exact List.prefix_rfl

/-- A receiver stays where it is, or comes to the end of the piece. -/
theorem length_accept (received : List α) (piece : Piece α)
    : (accept received piece).length = received.length
      ∨ (accept received piece).length = piece.stop := by
  unfold accept Piece.stop
  split
  · rw [List.length_append, List.length_drop]
    omega
  · exact .inl rfl

/-- A piece without elements brings nothing. -/
theorem accept_empty (received : List α) (position : Nat) : accept received ⟨position, []⟩ = received := by
  unfold accept
  split
  · rw [List.drop_nil, List.append_nil]
  · rfl

/-- A piece of a stream lengthens a prefix of it. -/
theorem accept_known {received stream : List α} {piece : Piece α} (known : received <+: stream)
    (of : piece.Of stream)
    : accept received piece <+: stream := by
  unfold accept
  split
  swap
  · exact known
  rename_i reached
  obtain ⟨rest, rfl⟩ := known
  obtain ⟨position, elements⟩ := piece
  obtain ⟨inside, eq⟩ := of
  dsimp only [Piece.stop] at *
  -- What is new of the piece begins where the prefix ends.
  have new : elements.drop (received.length - position)
      = rest.take (position + elements.length - received.length) := by
    conv_lhs => rw [eq]
    rw [List.drop_take, List.drop_drop, show position + (received.length - position) = received.length by omega,
      List.drop_left]
    congr 1
    omega
  rw [new]
  exact (List.prefix_append_right_inj received).mpr (List.take_prefix _ _)

end Reassembly
