import Smews.Library.Runs
import Smews.PanManager.Apduip

/-! The link between a Funcard 7, `hardware.c`, and the PAN manager with its plugin `apduip.c`. The card and the plugin
take turns: each waits for the other one, so that a call of the driver does all that both do up to its end.
-/

namespace Smews.Targets

open ByteMemory CommandExchange PanManager Runs

--------------------------------------------------
-- The driver and the link
--------------------------------------------------

/-- `SW_OK`. -/
def swOk : UInt16 := 0x9000

/-- `SW_WRONG_CLA`. -/
def swWrongCla : UInt16 := 0x6e00

/-- `SW_WRONG_INS`. -/
def swWrongIns : UInt16 := 0x6d00

/-- `APDU_SIZE`. -/
def apduSize : UInt8 := 255

/-- What the driver does with the command that it waits for: it is the start of the driver or `init_read` of `DEV_WAIT`,
`init_read` of `dev_get`, or `dev_prepare_output`.
-/
inductive Awaiting
  | input
  | byte
  | output
deriving DecidableEq

/-- Where the card is: outside of the driver, or in `get_apdu`. -/
inductive CardPlace
  | running
  | waiting (then_ : Awaiting)
deriving DecidableEq

/-- The variables of the driver, the command that the terminal runs for the plugin, and the plugin. `returned` is what
`dev_get` returned.
-/
structure ApduLink where
  place : CardPlace
  header : Header
  maxRead : UInt8
  currRead : UInt8
  nwrite : UInt8
  segmentLeft : UInt16
  terminal : Option Terminal
  host : Apduip
  returned : List UInt8

namespace ApduLink

/-- `sendFbyteT0`. The plugin goes on when the response is complete. -/
def sendFbyteT0 (byte : UInt8) (l : ApduLink) : Option ApduLink := do
  let t ← l.terminal
  match ← t.take byte with
  | .inl t => some { l with terminal := some t }
  | .inr response =>
      let (host, command) ← l.host.transmitted response
      some { l with host, terminal := command.map Terminal.start }

/-- `recFbyteT0`. -/
def recFbyteT0 (l : ApduLink) : Option (UInt8 × ApduLink) := do
  let t ← l.terminal
  let (byte, t) ← t.give
  some (byte, { l with terminal := some t })

/-- `T0_sendFWord`. -/
def sendFWord (word : UInt16) (l : ApduLink) : Option ApduLink := do
  (← l.sendFbyteT0 (word >>> 8).toUInt8).sendFbyteT0 word.toUInt8

/-- `check_apdu`: the status word for a wrong header. -/
def checkApdu (header : Header) : Option UInt16 :=
  if header.cla &&& 0xfc ≠ 0x80 then some swWrongCla
  else if 0x02 < header.ins then some swWrongIns
  else none

/-- The end of `dev_get`. -/
def getByte (l : ApduLink) : Option ApduLink := do
  let l ← l.sendFbyteT0 (~~~ l.header.ins)
  let (byte, l) ← recFbyteT0 { l with currRead := l.currRead + 1 }
  some { l with returned := l.returned ++ [byte] }

/-- What follows `get_apdu`. -/
def resume (l : ApduLink) : Awaiting → Option ApduLink
  | .input => some { l with currRead := 0, maxRead := l.header.p3 }
  | .byte => getByte { l with currRead := 0, maxRead := l.header.p3 }
  | .output => l.sendFbyteT0 l.header.ins

/-- `get_apdu`, and what follows it, once the terminal has a command. The plugin ends at a wrong status. -/
def getApdu (then_ : Awaiting) (l : ApduLink) : Option ApduLink :=
  match l.terminal with
  | none => some { l with place := .waiting then_ }
  | some t =>
      if t.phase ≠ .header then none
      else
        let header := t.command.header
        let l := { l with place := .running, header, terminal := some t.takeHeader }
        match checkApdu header with
        | none => l.resume then_
        | some sw => (l.sendFWord sw).map fun l => { l with place := .waiting then_ }

/-- `init_read`. -/
def initRead (then_ : Awaiting) (l : ApduLink) : Option ApduLink := do
  (← l.sendFWord swOk).getApdu then_

/-- `dev_get`. -/
def devGet (l : ApduLink) : Option ApduLink :=
  if l.currRead = l.maxRead then l.initRead .byte else l.getByte

/-- `dev_data_to_read`. -/
def devDataToRead (l : ApduLink) : Bool := l.currRead < l.maxRead || 0 < l.header.p2

/-- `dev_prepare_output`. -/
def devPrepareOutput (len : UInt16) (l : ApduLink) : Option ApduLink := do
  let outSize : UInt8 := if 255 < len then 255 else len.toUInt8
  let l ← sendFWord (swOk ||| outSize.toUInt16) { l with nwrite := 0 }
  getApdu .output { l with segmentLeft := len - outSize.toUInt16 }

/-- `dev_put`. -/
def devPut (l : ApduLink) (byte : UInt8) : Option ApduLink :=
  if l.place = .running then do
    let l ← l.sendFbyteT0 byte
    let l := { l with nwrite := l.nwrite + 1 }
    if l.nwrite = apduSize then l.devPrepareOutput l.segmentLeft else some l
  else none

--------------------------------------------------
-- Steps
--------------------------------------------------

/-- What happens: the PAN manager reads a packet from the tun interface, or the card calls `DEV_GET`, writes a packet
with `DEV_PREPARE_OUTPUT` and `DEV_PUT`, or calls `DEV_WAIT`.
-/
inductive Event
  | packet (bytes : List UInt8)
  | get
  | output (packet : List UInt8)
  | wait

/-- When something may happen: the PAN manager reads from the tun interface when the plugin is done with the packet
before, and the card writes or waits when `DEV_DATA_TO_READ` does not hold.
-/
def Permits (l : ApduLink) : Event → Prop
  | .packet bytes => l.host.place = .idle ∧ bytes ≠ []
  | .get => l.place = .running
  | .output _ | .wait => l.place = .running ∧ l.devDataToRead = false

instance (l : ApduLink) : (event : Event) → Decidable (l.Permits event)
  | .packet _ => inferInstanceAs (Decidable (_ ∧ _))
  | .get => inferInstanceAs (Decidable (_ = _))
  | .output _ | .wait => inferInstanceAs (Decidable (_ ∧ _))

/-- What then happens. It ends when the card calls no more of the driver, or waits for a command. -/
def perform (l : ApduLink) : Event → Option ApduLink
  | .packet bytes =>
      let (host, command) := l.host.sendPacket bytes Apduip.maxResponse
      let l := { l with host, terminal := some (.start command) }
      match l.place with
      | .running => some l
      | .waiting then_ => l.getApdu then_
  | .get => l.devGet
  | .output packet => do packet.foldlM devPut (← l.devPrepareOutput (UInt16.ofNat packet.length))
  | .wait => l.initRead .input

def Step (l : ApduLink) (event : Event) (l' : ApduLink) : Prop := l.Permits event ∧ l.perform event = some l'

/-- The card at the end of `hardware_init`, and the plugin after `init_apduip`. -/
structure Initial (l : ApduLink) : Prop where
  place : l.place = .waiting .input
  terminal : l.terminal = none
  host : l.host.place = .idle
  forwarded : l.host.forwarded = []
  returned : l.returned = []

--------------------------------------------------
-- Commands
--------------------------------------------------

section Commands

variable {l : ApduLink} {t t' : Terminal} {byte : UInt8}

theorem sendFbyteT0_goes (terminal : l.terminal = some t) (take : t.take byte = some (.inl t'))
    : l.sendFbyteT0 byte = some { l with terminal := some t' } := by
  unfold sendFbyteT0
  rw [terminal]
  dsimp only [Option.bind_eq_bind, Option.bind_some]
  rw [take]
  rfl

/-- A status word ends the command, and the plugin goes on. -/
theorem sendFWord_ends {word : UInt16} {host : Apduip} {command : Option Command} (terminal : l.terminal = some t)
    (phase : t.phase = .procedure) (ins : t.command.header.ins = 0x01 ∨ t.command.header.ins = 0x02)
    (status : (word >>> 8).toUInt8 = 0x90)
    (answer : l.host.transmitted (t.received ++ [0x90, word.toUInt8]) = some (host, command))
    : l.sendFWord word = some { l with host, terminal := command.map Terminal.start } := by
  have first : t.take 0x90 = some (.inl { t with phase := .status 0x90, onTheWay := [] }) := by
    apply Terminal.take_status phase (by decide)
    · rcases ins with ins | ins <;> rw [ins] <;> decide
    · rcases ins with ins | ins <;> rw [ins] <;> decide
  unfold sendFWord
  rw [status, sendFbyteT0_goes terminal first]
  dsimp only [Option.bind_eq_bind, Option.bind_some]
  unfold sendFbyteT0
  dsimp only [Option.bind_eq_bind, Option.bind_some, Terminal.take]
  rw [answer]
  rfl

theorem checkApdu_none {header : Header} (cla : header.cla = 0x80) (ins : header.ins = 0x01 ∨ header.ins = 0x02)
    : checkApdu header = none := by
  unfold checkApdu
  rw [cla, if_neg (by decide)]
  rcases ins with ins | ins <;> rw [ins] <;> rfl

theorem getApdu_none (none : l.terminal = none) (then_ : Awaiting)
    : l.getApdu then_ = some { l with place := .waiting then_ } := by
  unfold getApdu
  rw [none]

/-- The card takes the command that the terminal begins with. -/
theorem getApdu_start {command : Command} (terminal : l.terminal = some (.start command))
    (right : checkApdu command.header = none) (then_ : Awaiting)
    : l.getApdu then_ = resume { l with
        place := .running
        header := command.header
        terminal := some ⟨command, .procedure, command.data.getD [], [], []⟩ } then_ := by
  have right' : checkApdu (Terminal.start command).command.header = none := right
  have begun : ¬ (Terminal.start command).phase ≠ .header := fun other => other rfl
  unfold getApdu
  rw [terminal]
  dsimp only
  rw [if_neg begun, right']
  rfl

end Commands

end ApduLink

end Smews.Targets
