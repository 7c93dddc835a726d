import Mathlib.Data.List.Basic
import Mathlib.Data.UInt

/-! A command of the T=0 protocol, as a terminal runs it. The header goes to the card; from there on the card says with
procedure bytes which data follows, in which direction, until two status bytes end the command.
-/

namespace CommandExchange

structure Header where
  cla : UInt8
  ins : UInt8
  p1 : UInt8
  p2 : UInt8
  p3 : UInt8
deriving DecidableEq

/-- A command with data for the card, or one that asks the card for `p3` bytes, where zero stands for 256. -/
structure Command where
  header : Header
  data : Option (List UInt8)
deriving DecidableEq

/-- How far a command is: the card did not take its header yet, its next byte is a procedure byte, or one of some bytes
of data, or the second status byte.
-/
inductive Phase
  | header
  | procedure
  | incoming (n : Nat)
  | status (sw1 : UInt8)
deriving DecidableEq

/-- A terminal that runs a command. `unsent` is the data that the card did not ask for yet, `onTheWay` what it asked for
and did not read yet, and `received` the data that the card sent.
-/
structure Terminal where
  command : Command
  phase : Phase
  unsent : List UInt8
  onTheWay : List UInt8
  received : List UInt8
deriving DecidableEq

namespace Terminal

def start (command : Command) : Terminal :=
  { command, phase := .header, unsent := command.data.getD [], onTheWay := [], received := [] }

/-- The card takes the header. -/
def takeHeader (t : Terminal) : Terminal := { t with phase := .procedure }

/-- How many bytes the card still owes. -/
def owed (t : Terminal) : Nat :=
  (if t.command.header.p3 = 0 then 256 else t.command.header.p3.toNat) - t.received.length

/-- The card is to get, or to send, at most `n` bytes of data. -/
def transfer (t : Terminal) (n : Nat) : Terminal :=
  match t.command.data with
  | some _ => { t with onTheWay := t.unsent.take n, unsent := t.unsent.drop n }
  | none => if min n t.owed = 0 then t else { t with phase := .incoming (min n t.owed) }

/-- A byte of the card: the command goes on, or its response is complete. What the card did not read is lost. -/
def take (t : Terminal) (byte : UInt8) : Option (Terminal ⊕ List UInt8) :=
  match t.phase with
  | .header => none
  | .procedure =>
      let t := { t with onTheWay := [] }
      if byte = 0x60 then some (.inl t)
      else if byte = t.command.header.ins then some (.inl (t.transfer (max t.unsent.length t.owed)))
      else if byte = ~~~ t.command.header.ins then some (.inl (t.transfer 1))
      else if byte &&& 0xf0 = 0x60 ∨ byte &&& 0xf0 = 0x90 then some (.inl { t with phase := .status byte })
      else none
  | .incoming n =>
      let phase := if n ≤ 1 then .procedure else .incoming (n - 1)
      some (.inl { t with phase, received := t.received ++ [byte] })
  | .status sw1 => some (.inr (t.received ++ [sw1, byte]))

/-- The next byte on its way to the card. -/
def give (t : Terminal) : Option (UInt8 × Terminal) :=
  match t.onTheWay with
  | [] => none
  | byte :: onTheWay => some (byte, { t with onTheWay })

variable {t : Terminal}

/-- The card asks for one byte of data, and gets it. -/
theorem take_one {data unsent : List UInt8} {byte : UInt8} (phase : t.phase = .procedure)
    (sends : t.command.data = some data) (rest : t.unsent = byte :: unsent) (ins : ~~~ t.command.header.ins ≠ 0x60)
    : t.take (~~~ t.command.header.ins) = some (.inl { t with unsent, onTheWay := [byte] }) := by
  have other : ~~~ t.command.header.ins ≠ t.command.header.ins := by
    rw [ne_eq, ← UInt8.toNat_inj, UInt8.toNat_not, UInt8.size]
    have := t.command.header.ins.toNat_lt
    omega
  obtain ⟨command, _, _, onTheWay, received⟩ := t
  cases phase
  cases rest
  unfold take
  dsimp only
  rw [if_neg ins, if_neg other, if_pos rfl, transfer]
  dsimp only
  rw [sends]
  rfl

/-- The card begins to send its data. -/
theorem take_all (phase : t.phase = .procedure) (asks : t.command.data = none) (owes : t.owed ≠ 0)
    (nothing : t.onTheWay = []) (ins : t.command.header.ins ≠ 0x60)
    : t.take t.command.header.ins = some (.inl { t with phase := .incoming t.owed }) := by
  obtain ⟨command, _, unsent, _, received⟩ := t
  cases phase
  cases nothing
  unfold take
  dsimp only
  rw [if_neg ins, if_pos rfl, transfer]
  dsimp only
  rw [asks]
  dsimp only
  rw [min_eq_right (le_max_right _ _), if_neg owes]

/-- A byte of that data. -/
theorem take_data {n : Nat} (phase : t.phase = .incoming n) (byte : UInt8)
    : t.take byte = some (.inl { t with
        phase := if n ≤ 1 then .procedure else .incoming (n - 1)
        received := t.received ++ [byte] }) := by
  unfold take
  rw [phase]

/-- The first status byte. -/
theorem take_status {sw1 : UInt8} (phase : t.phase = .procedure) (status : sw1 &&& 0xf0 = 0x90)
    (ins : t.command.header.ins ≠ sw1) (ins' : ~~~ t.command.header.ins ≠ sw1)
    : t.take sw1 = some (.inl { t with phase := .status sw1, onTheWay := [] }) := by
  have proceeds : sw1 ≠ 0x60 := by
    rintro rfl
    exact absurd status (by decide)
  unfold take
  rw [phase]
  dsimp only
  rw [if_neg proceeds, if_neg ins.symm, if_neg ins'.symm, if_pos (.inr status)]

end Terminal

end CommandExchange
