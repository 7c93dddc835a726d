import Mathlib.Data.List.TakeWhile
import Smews.Apps.Udp
import Smews.Library.Runs

/-! `dhcpclient.c`: the DHCP client. A datagram is applied to the transaction while its options are read, so that one
that is dropped may leave something behind.
-/

namespace Smews.Apps.Dhcp

open Smews.Core Runs

--------------------------------------------------
-- The transaction
--------------------------------------------------

/-- `dhcp_state_t`. -/
inductive DhcpState
  | init
  | selecting
  | requesting
  | bound
deriving DecidableEq, Repr

/-- `struct dhcp_transaction_t`. -/
structure DhcpTransaction where
  state : DhcpState
  xid : UInt32
  offeredIp : UInt32
  serverIp : UInt32
deriving DecidableEq, Repr

/-- `_current_transaction` and `local_ip_addr`. -/
structure DhcpClient where
  transaction : DhcpTransaction
  localIpAddr : List UInt8
deriving DecidableEq, Repr

def dhcpDiscover : UInt8 := 1
def dhcpOffer : UInt8 := 2
def dhcpRequest : UInt8 := 3
def dhcpAck : UInt8 := 5

def dhcpServerPort : UInt16 := 67
def dhcpClientPort : UInt16 := 68

def optionDhcpClientHostname : UInt8 := 12
def optionDhcpRequestedIp : UInt8 := 50
def optionDhcpMessageType : UInt8 := 53
def optionDhcpServerIdentifier : UInt8 := 54
def optionDhcpClientFqdn : UInt8 := 81
def optionEnd : UInt8 := 0xff

/-- The bytes of an address in `local_ip_addr`, the last one first. -/
def addressBytes (ip : UInt32) : List UInt8 :=
  [(ip &&& 0xff).toUInt8, ((ip >>> 8) &&& 0xff).toUInt8, ((ip >>> 16) &&& 0xff).toUInt8, (ip >>> 24).toUInt8]

/-- `dhcp_commit_ip`. -/
def dhcpCommitIp (client : DhcpClient) : DhcpClient :=
  { client with localIpAddr := addressBytes client.transaction.offeredIp }

--------------------------------------------------
-- Datagrams
--------------------------------------------------

/-- `udp_in`. Past the end the driver answers -1, which is 255 as a character. -/
def udpIn : List UInt8 → UInt8 × List UInt8
  | [] => (0xff, [])
  | c :: rest => (c, rest)

/-- `in_32`. -/
def in32 (datagram : List UInt8) : UInt32 × List UInt8 :=
  let (a, rest) := udpIn datagram
  let (b, rest) := udpIn rest
  let (c, rest) := udpIn rest
  let (d, rest) := udpIn rest
  (a.toUInt32 <<< 24 ||| b.toUInt32 <<< 16 ||| c.toUInt32 <<< 8 ||| d.toUInt32, rest)

/-- The options loop of `dhcp_in` in at most so many turns: the transaction, and the message type unless the datagram
is dropped. When no bytes are left the next option is the end, so that there are no more turns than bytes.
-/
def processOptions (yiaddr : UInt32)
    : Nat → DhcpTransaction → UInt8 → List UInt8 → DhcpTransaction × Option UInt8
  | 0, t, messageType, _ => (t, some messageType)
  | turns + 1, t, messageType, datagram =>
      let (code, rest) := udpIn datagram
      if code = optionEnd then
        (t, some messageType)
      else
        let (len, rest) := udpIn rest
        if code = optionDhcpMessageType then
          let (messageType, rest) := udpIn rest
          let len := len - 1
          if messageType = dhcpOffer then
            if t.state ≠ .selecting then (t, none)
            else processOptions yiaddr turns { t with offeredIp := yiaddr } messageType (rest.drop len.toNat)
          else if messageType = dhcpAck then
            if t.state ≠ .requesting then (t, none)
            else processOptions yiaddr turns t messageType (rest.drop len.toNat)
          else (t, none)
        else if code = optionDhcpServerIdentifier then
          let (serverIp, rest) := in32 rest
          let len := len - 4
          processOptions yiaddr turns { t with serverIp } messageType (rest.drop len.toNat)
        else processOptions yiaddr turns t messageType (rest.drop len.toNat)

/-- The bytes 99, 130, 83 and 99 in front of the options. -/
def checkCookie (datagram : List UInt8) : Bool × List UInt8 :=
  let (a, rest) := udpIn datagram
  let (b, rest) := udpIn rest
  let (c, rest) := udpIn rest
  let (d, rest) := udpIn rest
  (a = 99 && b = 130 && c = 83 && d = 99, rest)

/-- `dhcp_in`: what it returns, and what it leaves. -/
def dhcpIn (udpArgs : UdpHeader) (datagram : List UInt8) (client : DhcpClient) : UInt8 × UdpHeader × DhcpClient :=
  let t := client.transaction
  if t.state ≠ .selecting ∧ t.state ≠ .requesting then
    (0, udpArgs, client)
  else
    -- op, htype, hlen, hops
    let (_, rest) := in32 datagram
    let (xid, rest) := in32 rest
    if xid ≠ t.xid then
      (0, udpArgs, client)
    else
      -- secs, flags, ciaddr
      let (_, rest) := in32 rest
      let (_, rest) := in32 rest
      let (yiaddr, rest) := in32 rest
      -- siaddr, giaddr, chaddr, sname, file
      let (_, rest) := in32 rest
      let (_, rest) := in32 rest
      let (cookie, rest) := checkCookie (rest.drop 208)
      if !cookie then
        (0, udpArgs, client)
      else
        match processOptions yiaddr rest.length t 0 rest with
        | (t, none) => (0, udpArgs, { client with transaction := t })
        | (t, some messageType) =>
            if messageType = dhcpOffer then
              (1, { udpArgs with srcPort := dhcpClientPort, dstPort := dhcpServerPort },
                { client with transaction := { t with state := .requesting } })
            else if messageType = dhcpAck then
              let client := dhcpCommitIp { client with transaction := t }
              (0, udpArgs, { client with transaction := { t with state := .bound } })
            else
              (0, udpArgs, { client with transaction := t })

--------------------------------------------------
-- What the client sends
--------------------------------------------------

/-- `out_32`. -/
def out32 (val : UInt32) : List UInt8 :=
  [(val >>> 24).toUInt8, ((val >>> 16) &&& 0xff).toUInt8, ((val >>> 8) &&& 0xff).toUInt8, (val &&& 0xff).toUInt8]

/-- `dhcp_send_common_header`, for the size of the link layer address. -/
def sendCommonHeader (linkLayerAddress : List UInt8) (xid : UInt32) : List UInt8 :=
  [1, 1, UInt8.ofNat linkLayerAddress.length, 0] ++ out32 xid ++ [0, 0] ++ [0, 0]

/-- `dhcp_put_option_a`. -/
def putOptionA (code : UInt8) (val : List UInt8) : List UInt8 := code :: UInt8.ofNat val.length :: val

/-- `dhcp_put_option_32`: the bytes of the value are in memory from the lowest one on. -/
def putOption32 (code : UInt8) (val : UInt32) : List UInt8 :=
  let val := val >>> 24 ||| (val &&& 0xff) <<< 24 ||| (val &&& 0xff0000) >>> 8 ||| (val &&& 0xff00) <<< 8
  putOptionA code [val.toUInt8, (val >>> 8).toUInt8, (val >>> 16).toUInt8, (val >>> 24).toUInt8]

/-- `dhcp_send_client_fqdn_option`. -/
def sendClientFqdnOption : List UInt8 :=
  [optionDhcpClientFqdn, 10, 5, 0, 0, 5] ++ ascii "smews" ++ [0] ++ putOptionA optionDhcpClientHostname (ascii "smews")

/-- `dhcp_send_common_footer`: the link layer address in 16 bytes, `sname`, `file` and the magic cookie. -/
def sendCommonFooter (linkLayerAddress : List UInt8) : List UInt8 :=
  linkLayerAddress.take 16 ++ List.replicate (16 - linkLayerAddress.length) 0 ++ List.replicate 192 0
    ++ [99, 130, 83, 99]

/-- The bytes of `dhcp_send_discover`. -/
def discoverBytes (linkLayerAddress : List UInt8) (xid : UInt32) : List UInt8 :=
  sendCommonHeader linkLayerAddress xid ++ (out32 0 ++ out32 0 ++ out32 0 ++ out32 0)
    ++ sendCommonFooter linkLayerAddress
    ++ (putOptionA optionDhcpMessageType [dhcpDiscover] ++ sendClientFqdnOption ++ [optionEnd])

/-- The bytes of `dhcp_send_request`. -/
def requestBytes (linkLayerAddress : List UInt8) (xid offeredIp serverIp : UInt32) : List UInt8 :=
  sendCommonHeader linkLayerAddress xid ++ (out32 offeredIp ++ out32 0 ++ out32 serverIp ++ out32 0)
    ++ sendCommonFooter linkLayerAddress
    ++ (putOptionA optionDhcpMessageType [dhcpRequest] ++ putOption32 optionDhcpRequestedIp offeredIp
      ++ putOption32 optionDhcpServerIdentifier serverIp ++ sendClientFqdnOption ++ [optionEnd])

/-- `dhcp_out`: the bytes that it passes to `udp_outc`, and what it leaves. `rand` is `TARGET_RAND`. -/
def dhcpOut (linkLayerAddress : List UInt8) (rand : UInt32) (client : DhcpClient) : List UInt8 × DhcpClient :=
  let t := client.transaction
  match t.state with
  | .init =>
      (discoverBytes linkLayerAddress rand, { client with transaction := { t with xid := rand, state := .selecting } })
  | .requesting =>
      (requestBytes linkLayerAddress t.xid t.offeredIp t.serverIp,
        { client with transaction := { t with state := .requesting } })
  | _ => ([], client)

/-- After `dhcp_init`. -/
def dhcpInit (localIpAddr : List UInt8) : DhcpClient :=
  { transaction := { state := .init, xid := 0, offeredIp := 0, serverIp := 0 }, localIpAddr }

--------------------------------------------------
-- Messages
--------------------------------------------------

/-- The options that the client knows. -/
inductive DhcpOption
  | messageType (type : UInt8)
  | serverIdentifier (ip : UInt32)
deriving DecidableEq, Repr

/-- The known options up to the end. The length of an option counts from behind its second byte, modulo 256 less what
was read of it.
-/
def readOptions : Nat → List UInt8 → List DhcpOption
  | 0, _ => []
  | turns + 1, datagram =>
      let (code, rest) := udpIn datagram
      if code = optionEnd then
        []
      else
        let (len, rest) := udpIn rest
        if code = optionDhcpMessageType then
          let (type, rest) := udpIn rest
          .messageType type :: readOptions turns (rest.drop (len - 1).toNat)
        else if code = optionDhcpServerIdentifier then
          let (ip, rest) := in32 rest
          .serverIdentifier ip :: readOptions turns (rest.drop (len - 4).toNat)
        else readOptions turns (rest.drop len.toNat)

/-- What a datagram says. -/
structure DhcpMessage where
  xid : UInt32
  yiaddr : UInt32
  options : List DhcpOption
deriving DecidableEq, Repr

/-- The message in a datagram, unless its magic cookie is wrong. -/
def readMessage (datagram : List UInt8) : Option DhcpMessage :=
  let (xid, rest) := in32 (datagram.drop 4)
  let (yiaddr, rest) := in32 (rest.drop 8)
  let (cookie, rest) := checkCookie (rest.drop 216)
  if cookie then some { xid, yiaddr, options := readOptions rest.length rest } else none

/-- The message types among the options. -/
def types (options : List DhcpOption) : List UInt8 :=
  options.filterMap fun
    | .messageType type => some type
    | .serverIdentifier _ => none

/-- The servers among the options. -/
def serverIdentifiers (options : List DhcpOption) : List UInt32 :=
  options.filterMap fun
    | .messageType _ => none
    | .serverIdentifier ip => some ip

/-- The client does not drop a message at an option. -/
def accepts (state : DhcpState) : DhcpOption → Bool
  | .messageType type => (type = dhcpOffer && state = .selecting) || (type = dhcpAck && state = .requesting)
  | .serverIdentifier _ => true

/-- The options in front of the one where the client drops the message. -/
def handled (state : DhcpState) (options : List DhcpOption) : List DhcpOption := options.takeWhile (accepts state)

/-- The client makes a transition: it accepts all options, and one of them is a message type. -/
def DhcpMessage.Accepted (m : DhcpMessage) (state : DhcpState) : Prop :=
  (∀ option ∈ m.options, accepts state option) ∧ types m.options ≠ []

/-- The transaction after some options. -/
def record (yiaddr : UInt32) (t : DhcpTransaction) (options : List DhcpOption) : DhcpTransaction :=
  {
    t with
    offeredIp := if t.state = .selecting ∧ types options ≠ [] then yiaddr else t.offeredIp
    serverIp := (serverIdentifiers options).getLast?.getD t.serverIp
  }

/-- The client waits for a message. -/
def DhcpTransaction.Waits (t : DhcpTransaction) : Prop := t.state = .selecting ∨ t.state = .requesting

section Messages

variable {t : DhcpTransaction} {yiaddr : UInt32} {options : List DhcpOption} {client : DhcpClient} {args : UdpHeader}
  {datagram : List UInt8}

theorem record_offer (type : UInt8) (selecting : t.state = .selecting)
    : record yiaddr { t with offeredIp := yiaddr } options = record yiaddr t (.messageType type :: options) := by
  simp [record, types, serverIdentifiers, selecting]

theorem record_ack (type : UInt8) (requesting : t.state = .requesting)
    : record yiaddr t options = record yiaddr t (.messageType type :: options) := by
  simp [record, serverIdentifiers, requesting]

theorem record_server (ip : UInt32)
    : record yiaddr { t with serverIp := ip } options = record yiaddr t (.serverIdentifier ip :: options) := by
  simp [record, types, serverIdentifiers, List.getLast?_cons]

/-- The options loop applies the options in front of the one where it drops the datagram, by induction on the turns. -/
theorem processOptions_eq (turns : Nat) (messageType : UInt8) (datagram : List UInt8)
    : processOptions yiaddr turns t messageType datagram
      = (record yiaddr t (handled t.state (readOptions turns datagram)),
        if (readOptions turns datagram).all (accepts t.state) then
          some ((types (readOptions turns datagram)).getLast?.getD messageType)
        else none) := by
  induction turns generalizing t messageType datagram with
  | zero => simp [processOptions, readOptions, record, handled, types, serverIdentifiers]
  | succ turns ih =>
      unfold processOptions readOptions
      generalize udpIn datagram = head
      obtain ⟨code, rest⟩ := head
      dsimp only
      by_cases isEnd : code = optionEnd
      · simp [isEnd, record, handled, types, serverIdentifiers]
      simp only [if_neg isEnd]
      generalize udpIn rest = head
      obtain ⟨len, rest⟩ := head
      dsimp only
      by_cases isType : code = optionDhcpMessageType
      · simp only [if_pos isType]
        generalize udpIn rest = head
        obtain ⟨type, rest⟩ := head
        dsimp only
        by_cases offer : type = dhcpOffer
        · subst offer
          rw [if_pos rfl]
          by_cases selecting : t.state = .selecting
          · have accepted : accepts t.state (.messageType dhcpOffer) = true := by simp [accepts, selecting]
            rw [if_neg (not_not.mpr selecting), ih, record_offer dhcpOffer selecting, handled, handled,
              List.takeWhile_cons_of_pos accepted, List.all_cons, accepted, Bool.true_and]
            simp [types, List.getLast?_cons]
          · have dropped : accepts t.state (.messageType dhcpOffer) = false := by
              simp [accepts, selecting, dhcpOffer, dhcpAck]
            rw [if_pos selecting, handled, List.takeWhile_cons_of_neg (by simp [dropped]), List.all_cons, dropped]
            simp [record, types, serverIdentifiers]
        · rw [if_neg offer]
          by_cases ack : type = dhcpAck
          · subst ack
            rw [if_pos rfl]
            by_cases requesting : t.state = .requesting
            · have accepted : accepts t.state (.messageType dhcpAck) = true := by simp [accepts, requesting]
              rw [if_neg (not_not.mpr requesting), ih, record_ack dhcpAck requesting, handled, handled,
                List.takeWhile_cons_of_pos accepted, List.all_cons, accepted, Bool.true_and]
              simp [types, List.getLast?_cons]
            · have dropped : accepts t.state (.messageType dhcpAck) = false := by
                simp [accepts, requesting, dhcpOffer, dhcpAck]
              rw [if_pos requesting, handled, List.takeWhile_cons_of_neg (by simp [dropped]), List.all_cons, dropped]
              simp [record, types, serverIdentifiers]
          · have dropped : accepts t.state (.messageType type) = false := by simp [accepts, offer, ack]
            rw [if_neg ack, handled, List.takeWhile_cons_of_neg (by simp [dropped]), List.all_cons, dropped]
            simp [record, types, serverIdentifiers]
      · simp only [if_neg isType]
        by_cases isServer : code = optionDhcpServerIdentifier
        · simp only [if_pos isServer]
          generalize in32 rest = head
          obtain ⟨ip, rest⟩ := head
          dsimp only
          have accepted : accepts t.state (.serverIdentifier ip) = true := rfl
          rw [ih, record_server, handled, handled, List.takeWhile_cons_of_pos accepted, List.all_cons, accepted,
            Bool.true_and]
          simp [types]
        · simp only [if_neg isServer]
          exact ih _ _

theorem udpIn_rest (datagram : List UInt8) : (udpIn datagram).2 = datagram.drop 1 := by
  cases datagram <;> rfl

theorem in32_rest (datagram : List UInt8) : (in32 datagram).2 = datagram.drop 4 := by
  simp only [in32, udpIn_rest, List.drop_drop]

/-- There are no more options than bytes, by induction on the turns. -/
theorem readOptions_succ {turns : Nat} (enough : datagram.length ≤ turns)
    : readOptions (turns + 1) datagram = readOptions turns datagram := by
  induction turns generalizing datagram with
  | zero =>
      rw [List.length_eq_zero_iff.mp (Nat.le_zero.mp enough)]
      rfl
  | succ turns ih =>
      rw [readOptions]
      conv_rhs => rw [readOptions]
      have shorter (rest : List UInt8) (n : Nat) (le : rest.length ≤ datagram.length - 1)
          : readOptions (turns + 1) (rest.drop n) = readOptions turns (rest.drop n) := by
        refine ih ?_
        rw [List.length_drop]
        omega
      have first : (datagram.drop 1).length = datagram.length - 1 := List.length_drop
      simp only [udpIn_rest, in32_rest]
      rw [shorter _ _ (by simp only [List.length_drop]; omega), shorter _ _ (by simp only [List.length_drop]; omega),
        shorter _ _ (by simp only [List.length_drop]; omega)]

/-- The options loop has no more turns than bytes. -/
theorem processOptions_succ {turns : Nat} (messageType : UInt8) (enough : datagram.length ≤ turns)
    : processOptions yiaddr (turns + 1) t messageType datagram = processOptions yiaddr turns t messageType datagram := by
  rw [processOptions_eq, processOptions_eq, readOptions_succ enough]

/-- What `dhcp_in` does with a datagram: it ignores it, applies some options and drops it, or makes a transition. -/
inductive Handles (args : UdpHeader) (datagram : List UInt8) (client : DhcpClient)
    : UInt8 × UdpHeader × DhcpClient → Prop
  | ignored (other : ¬ client.transaction.Waits ∨ ∀ m ∈ readMessage datagram, m.xid ≠ client.transaction.xid)
    : Handles args datagram client (0, args, client)
  | dropped (m : DhcpMessage) (waits : client.transaction.Waits) (read : readMessage datagram = some m)
    (own : m.xid = client.transaction.xid) (kept : ¬ m.Accepted client.transaction.state)
    : Handles args datagram client (0, args,
        { client with
          transaction := record m.yiaddr client.transaction (handled client.transaction.state m.options) })
  | offered (m : DhcpMessage) (selecting : client.transaction.state = .selecting) (read : readMessage datagram = some m)
    (own : m.xid = client.transaction.xid) (accepted : m.Accepted .selecting)
    : Handles args datagram client (1, { args with srcPort := dhcpClientPort, dstPort := dhcpServerPort },
        { client with transaction := { record m.yiaddr client.transaction m.options with state := .requesting } })
  | acknowledged (m : DhcpMessage) (requesting : client.transaction.state = .requesting)
    (read : readMessage datagram = some m) (own : m.xid = client.transaction.xid) (accepted : m.Accepted .requesting)
    : Handles args datagram client (0, args,
        { dhcpCommitIp { client with transaction := record m.yiaddr client.transaction m.options } with
          transaction := { record m.yiaddr client.transaction m.options with state := .bound } })

/-- The message types that a client accepts in a state are all the same. -/
theorem types_accepted {state : DhcpState} {options : List DhcpOption} (accepted : ∀ o ∈ options, accepts state o)
    : ∀ type ∈ types options, (type = dhcpOffer ∧ state = .selecting) ∨ (type = dhcpAck ∧ state = .requesting) := by
  intro type mem
  obtain ⟨o, mem, eq⟩ := List.mem_filterMap.mp mem
  cases o with
  | messageType type' =>
      cases eq
      simpa [accepts] using accepted _ mem
  | serverIdentifier ip => cases eq

theorem handled_accepted {state : DhcpState} {options : List DhcpOption} (accepted : ∀ o ∈ options, accepts state o)
    : handled state options = options :=
  List.takeWhile_eq_self_iff.mpr accepted

theorem dhcpIn_handles (args : UdpHeader) (datagram : List UInt8) (client : DhcpClient)
    : Handles args datagram client (dhcpIn args datagram client) := by
  have inert (waits : client.transaction.Waits) : ¬ (client.transaction.state ≠ .selecting
      ∧ client.transaction.state ≠ .requesting) := by
    rintro ⟨not_selecting, not_requesting⟩
    exact waits.elim not_selecting not_requesting
  unfold dhcpIn
  by_cases waits : client.transaction.Waits
  · simp only [if_neg (inert waits)]
    have message : readMessage datagram = if (checkCookie (datagram.drop 236)).1 then
        some {
          xid := (in32 (datagram.drop 4)).1
          yiaddr := (in32 (datagram.drop 16)).1
          options := readOptions (checkCookie (datagram.drop 236)).2.length (checkCookie (datagram.drop 236)).2
        }
      else none := by
      simp only [readMessage, in32_rest, List.drop_drop, Nat.reduceAdd]
    simp only [in32_rest, List.drop_drop, Nat.reduceAdd]
    generalize checkCookie (datagram.drop 236) = cookie at message ⊢
    generalize (in32 (datagram.drop 4)).1 = xid at message ⊢
    generalize (in32 (datagram.drop 16)).1 = yiaddr at message ⊢
    obtain ⟨cookie, rest⟩ := cookie
    dsimp only at message ⊢
    by_cases own : xid = client.transaction.xid
    · rw [if_neg (not_not.mpr own)]
      cases cookie with
      | false =>
          refine .ignored (.inr fun m read => ?_)
          rw [message] at read
          cases read
      | true =>
          rw [if_pos rfl] at message
          rw [Bool.not_true, if_neg Bool.false_ne_true, processOptions_eq]
          generalize readOptions rest.length rest = options at message ⊢
          by_cases all : ∀ o ∈ options, accepts client.transaction.state o
          · rw [if_pos (List.all_eq_true.mpr all)]
            dsimp only
            cases last : (types options).getLast? with
            | none =>
                -- no message type, which is a type of 0
                refine .dropped _ waits message own fun accepted => ?_
                exact accepted.2 (List.getLast?_eq_none_iff.mp last)
            | some type =>
                have some_type : types options ≠ [] := by
                  intro none_
                  rw [none_] at last
                  cases last
                rw [handled_accepted all, Option.getD_some]
                rcases types_accepted all type (List.mem_of_getLast? last) with ⟨rfl, selecting⟩ | ⟨rfl, requesting⟩
                · rw [if_pos rfl]
                  exact .offered _ selecting message own ⟨selecting ▸ all, some_type⟩
                · rw [if_neg (by decide), if_pos rfl]
                  exact .acknowledged _ requesting message own ⟨requesting ▸ all, some_type⟩
          · rw [if_neg (mt List.all_eq_true.mp all)]
            exact .dropped _ waits message own fun accepted => all accepted.1
    · rw [if_pos own]
      refine .ignored (.inr fun m read => ?_)
      rw [message] at read
      split at read
      · cases read
        exact own
      · cases read
  · rw [if_pos]
    · exact .ignored (.inl waits)
    · exact not_or.mp waits

end Messages

--------------------------------------------------
-- Steps
--------------------------------------------------

/-- `dhcp_in` is called with a datagram, or `dhcp_out` with the value of `TARGET_RAND`. -/
inductive DhcpEvent
  | receive (args : UdpHeader) (datagram : List UInt8)
  | out (rand : UInt32)

/-- The client, with the offers that it accepted and the payloads that it sent so far. -/
structure DhcpSystem where
  client : DhcpClient
  accepted : List DhcpMessage
  sent : List (List UInt8)

namespace DhcpSystem

/-- The current transaction. -/
def transaction (s : DhcpSystem) : DhcpTransaction := s.client.transaction

def boot (localIpAddr : List UInt8) : DhcpSystem := { client := dhcpInit localIpAddr, accepted := [], sent := [] }

def step (linkLayerAddress : List UInt8) (s : DhcpSystem) : DhcpEvent → DhcpSystem
  | .receive args datagram =>
      let (_, _, client) := dhcpIn args datagram s.client
      let offers := s.transaction.state = .selecting ∧ client.transaction.state = .requesting
      { s with client, accepted := if offers then s.accepted ++ (readMessage datagram).toList else s.accepted }
  | .out rand =>
      let (bytes, client) := dhcpOut linkLayerAddress rand s.client
      { s with client, sent := s.sent ++ [bytes] }

end DhcpSystem

/-- In front of the option where a message is dropped no other server stands last, nor is there another offer for a
client that selects one.
-/
def DhcpMessage.LeavesRecord (m : DhcpMessage) (t : DhcpTransaction) : Prop :=
  (∀ ip ∈ (serverIdentifiers (handled t.state m.options)).getLast?, ip = t.serverIp)
    ∧ (t.state = .selecting → types (handled t.state m.options) ≠ [] → m.yiaddr = t.offeredIp)

/-- An offer that is accepted names its server, and what is dropped leaves the record. -/
def Consistent (t : DhcpTransaction) (datagram : List UInt8) : Prop :=
  ∀ m ∈ readMessage datagram, m.xid = t.xid → t.Waits →
    (m.Accepted t.state → t.state = .selecting → serverIdentifiers m.options ≠ [])
      ∧ (¬ m.Accepted t.state → m.LeavesRecord t)

/-- A step in which each datagram is consistent. -/
def ConsistentStep (linkLayerAddress : List UInt8) (s : DhcpSystem) (event : DhcpEvent) (s' : DhcpSystem) : Prop :=
  (∀ args datagram, event = .receive args datagram → Consistent s.transaction datagram)
    ∧ s' = s.step linkLayerAddress event

/-- A payload requests the address of one of some offers from the server of the same offer. -/
def Pairs (linkLayerAddress : List UInt8) (offers : List DhcpMessage) (xid : UInt32) (payload : List UInt8) : Prop :=
  ∃ m ∈ offers, m.xid = xid ∧ ∃ ip ∈ (serverIdentifiers m.options).getLast?,
    payload = requestBytes linkLayerAddress m.xid m.yiaddr ip

--------------------------------------------------
-- Payloads
--------------------------------------------------

section Payloads

variable {linkLayerAddress : List UInt8} {xid : UInt32}

/-- What stands behind the magic cookie of a payload. -/
theorem options_getElem? {addresses options : List UInt8} (sixteen : addresses.length = 16) (k : Nat)
    : (sendCommonHeader linkLayerAddress xid ++ addresses ++ sendCommonFooter linkLayerAddress ++ options)[240 + k]?
      = options[k]? := by
  have header : (sendCommonHeader linkLayerAddress xid).length = 12 := rfl
  have footer : (sendCommonFooter linkLayerAddress).length = 212 := by
    simp only [sendCommonFooter, List.length_append, List.length_take, List.length_replicate, List.length_cons,
      List.length_nil]
    omega
  rw [List.getElem?_append_right]
  · simp only [List.length_append, header, footer, sixteen]
    rw [Nat.add_sub_cancel_left]
  · simp only [List.length_append, header, footer, sixteen]
    omega

theorem discoverBytes_type : (discoverBytes linkLayerAddress xid)[242]? = some dhcpDiscover :=
  options_getElem? rfl 2

end Payloads

--------------------------------------------------
-- Runs
--------------------------------------------------

/-- The record of a client that requests is the one of an offer that it accepted, and so is the address of a client that
is bound.
-/
structure RecordKept (linkLayerAddress : List UInt8) (s : DhcpSystem) : Prop where
  early : s.transaction.state = .init → s.sent = []
  requesting : s.transaction.state = .requesting → ∃ m ∈ s.accepted, m.xid = s.transaction.xid
    ∧ s.transaction.offeredIp = m.yiaddr ∧ (serverIdentifiers m.options).getLast? = some s.transaction.serverIp
  bound : s.transaction.state = .bound → ∃ m ∈ s.accepted, m.xid = s.transaction.xid
    ∧ s.client.localIpAddr = addressBytes m.yiaddr
  sent : ∀ payload ∈ s.sent, payload[242]? = some dhcpRequest →
    Pairs linkLayerAddress s.accepted s.transaction.xid payload

section Runs

variable {linkLayerAddress : List UInt8} {s s' : DhcpSystem} {args : UdpHeader} {datagram : List UInt8}

/-- The record is left when every field keeps its value. -/
theorem record_eq_iff {t : DhcpTransaction} {m : DhcpMessage}
    : record m.yiaddr t (handled t.state m.options) = t ↔ m.LeavesRecord t := by
  obtain ⟨state, xid, offeredIp, serverIp⟩ := t
  have server : ((serverIdentifiers (handled state m.options)).getLast?.getD serverIp = serverIp)
      ↔ ∀ ip ∈ (serverIdentifiers (handled state m.options)).getLast?, ip = serverIp := by
    cases (serverIdentifiers (handled state m.options)).getLast? <;> simp
  have offer : ((if state = .selecting ∧ types (handled state m.options) ≠ [] then m.yiaddr else offeredIp) = offeredIp)
      ↔ (state = .selecting → types (handled state m.options) ≠ [] → m.yiaddr = offeredIp) := by
    rw [← and_imp]
    split
    · rename_i both
      exact ⟨fun eq _ => eq, fun imp => imp both⟩
    · rename_i neither
      exact iff_of_true rfl fun both => absurd both neither
  simp only [record, DhcpTransaction.mk.injEq, true_and, server, offer, DhcpMessage.LeavesRecord]
  exact and_comm

theorem step_offered (selecting : s.transaction.state = .selecting)
    (requesting : (dhcpIn args datagram s.client).2.2.transaction.state = .requesting)
    : s.step linkLayerAddress (.receive args datagram) = { s with
        client := (dhcpIn args datagram s.client).2.2
        accepted := s.accepted ++ (readMessage datagram).toList } := by
  unfold DhcpSystem.step
  dsimp only
  rw [if_pos ⟨selecting, requesting⟩]

theorem step_other (other : ¬ (s.transaction.state = .selecting
      ∧ (dhcpIn args datagram s.client).2.2.transaction.state = .requesting))
    : s.step linkLayerAddress (.receive args datagram)
      = { s with client := (dhcpIn args datagram s.client).2.2 } := by
  unfold DhcpSystem.step
  dsimp only
  rw [if_neg other]

theorem RecordKept.receive (kept : RecordKept linkLayerAddress s) (consistent : Consistent s.transaction datagram)
    : RecordKept linkLayerAddress (s.step linkLayerAddress (.receive args datagram)) := by
  have handles := dhcpIn_handles args datagram s.client
  have offered := @step_offered linkLayerAddress s args datagram
  have other := @step_other linkLayerAddress s args datagram
  generalize dhcpIn args datagram s.client = result at handles offered other
  cases handles with
  | ignored _ =>
      rw [other]
      · exact kept
      · rintro ⟨selecting, requesting⟩
        cases selecting.symm.trans requesting
  | dropped m waits read own not_accepted =>
      have same := record_eq_iff.mpr ((consistent m read own waits).2 not_accepted)
      have same : record m.yiaddr s.client.transaction (handled s.client.transaction.state m.options)
          = s.client.transaction := same
      rw [same] at other
      rw [other]
      · exact kept
      · rintro ⟨selecting, requesting⟩
        cases selecting.symm.trans requesting
  | offered m selecting read own all =>
      rw [offered selecting rfl, read]
      have selects : s.transaction.state = .selecting := selecting
      have named := (consistent m read own (.inl selecting)).1 (selects ▸ all) selects
      obtain ⟨ip, last⟩ : ∃ ip, (serverIdentifiers m.options).getLast? = some ip :=
        ⟨_, List.getLast?_eq_some_getLast named⟩
      refine ⟨nofun, fun _ => ⟨m, List.mem_append_right _ (List.mem_singleton_self m), own, ?_, ?_⟩, nofun, ?_⟩
      · exact if_pos ⟨selecting, all.2⟩
      · simp [DhcpSystem.transaction, record, last]
      · intro payload mem isRequest
        obtain ⟨offer, mem', paired⟩ := kept.sent payload mem isRequest
        exact ⟨offer, List.mem_append_left _ mem', paired⟩
  | acknowledged m requesting read own all =>
      obtain ⟨offer, mem, xid, offered, server⟩ := kept.requesting requesting
      rw [other]
      · refine ⟨nofun, nofun, fun _ => ⟨offer, mem, xid, ?_⟩, kept.sent⟩
        have offered : s.client.transaction.offeredIp = offer.yiaddr := offered
        simp [dhcpCommitIp, record, requesting, offered]
      · rintro ⟨selecting, -⟩
        cases selecting.symm.trans requesting

theorem RecordKept.out (kept : RecordKept linkLayerAddress s) (rand : UInt32)
    : RecordKept linkLayerAddress (s.step linkLayerAddress (.out rand)) := by
  obtain ⟨⟨⟨state, xid, offeredIp, serverIp⟩, localIpAddr⟩, accepted, sent⟩ := s
  obtain ⟨early, requesting, bound, pairs⟩ := kept
  simp only [DhcpSystem.transaction] at early requesting bound pairs
  cases state with
  | init =>
      refine ⟨nofun, nofun, nofun, fun payload mem isRequest => ?_⟩
      simp only [DhcpSystem.step, dhcpOut, early rfl, List.nil_append, List.mem_singleton] at mem
      rw [mem, discoverBytes_type] at isRequest
      cases isRequest
  | selecting | bound =>
      refine ⟨nofun, requesting, bound, fun payload mem isRequest => ?_⟩
      simp only [DhcpSystem.step, dhcpOut, List.mem_append, List.mem_singleton] at mem
      rcases mem with mem | rfl
      · exact pairs payload mem isRequest
      · cases isRequest
  | requesting =>
      refine ⟨nofun, requesting, bound, fun payload mem isRequest => ?_⟩
      simp only [DhcpSystem.step, dhcpOut, List.mem_append, List.mem_singleton] at mem
      rcases mem with mem | rfl
      · exact pairs payload mem isRequest
      · obtain ⟨offer, mem, own, offered, server⟩ := requesting rfl
        exact ⟨offer, mem, own, serverIp, server, by rw [own, ← offered]⟩

/-- A datagram without a transition leaves the record exactly when it is consistent. -/
theorem unchanged_iff
    (same : (dhcpIn args datagram s.client).2.2.transaction.state = s.transaction.state)
    : (dhcpIn args datagram s.client).2.2.transaction = s.transaction ↔ Consistent s.transaction datagram := by
  have handles := dhcpIn_handles args datagram s.client
  generalize dhcpIn args datagram s.client = result at handles same
  cases handles with
  | ignored other =>
      refine iff_of_true rfl fun m read own waits => ?_
      rcases other with idle | others
      · exact absurd waits idle
      · exact absurd own (others m read)
  | dropped m waits read own not_accepted =>
      refine record_eq_iff.trans ⟨fun leaves m' read' _ _ => ?_, fun consistent => (consistent m read own waits).2 not_accepted⟩
      cases read.symm.trans read'
      exact ⟨fun accepted => absurd accepted not_accepted, fun _ => leaves⟩
  | offered m selecting _ _ _ => cases same.trans selecting
  | acknowledged m requesting _ _ _ => cases same.trans requesting

/-- An offer that is accepted is one that the next request pairs exactly when it is consistent. -/
theorem paired_iff {rand : UInt32} (selecting : s.transaction.state = .selecting)
    (requesting : (dhcpIn args datagram s.client).2.2.transaction.state = .requesting)
    : Pairs linkLayerAddress (readMessage datagram).toList s.transaction.xid
        (dhcpOut linkLayerAddress rand (dhcpIn args datagram s.client).2.2).1
      ↔ Consistent s.transaction datagram := by
  have handles := dhcpIn_handles args datagram s.client
  generalize dhcpIn args datagram s.client = result at handles requesting
  cases handles with
  | ignored _ => cases selecting.symm.trans requesting
  | dropped m _ _ _ _ => cases selecting.symm.trans requesting
  | acknowledged m _ _ _ _ => cases requesting
  | offered m selects read own all =>
      rw [read]
      constructor
      · rintro ⟨offer, mem, -, ip, last, -⟩ m' read' - -
        cases read.symm.trans read'
        cases List.mem_singleton.mp mem
        refine ⟨fun _ _ none_ => ?_, fun dropped => absurd (selecting ▸ all) dropped⟩
        rw [none_] at last
        cases last
      · intro consistent
        have named := (consistent m read own (.inl selecting)).1 (selecting ▸ all) selecting
        refine ⟨m, List.mem_singleton_self m, own, _, List.getLast?_eq_some_getLast named, ?_⟩
        have offered : (record m.yiaddr s.client.transaction m.options).offeredIp = m.yiaddr := if_pos ⟨selects, all.2⟩
        have server : (record m.yiaddr s.client.transaction m.options).serverIp
            = (serverIdentifiers m.options).getLast named := by
          simp [record, List.getLast?_eq_some_getLast named]
        simp only [dhcpOut, offered, server, own]
        rfl

/-- In every run of consistent datagrams each DHCPREQUEST pairs the address and the server of one accepted offer, and
the address of a bound client is the one that was offered. A datagram without a transition leaves the record, and an
offer that is accepted is one that the next request pairs, exactly when it is consistent.
-/
theorem dhcp_consistent {events : List DhcpEvent} (localIpAddr : List UInt8)
    (run : Run (ConsistentStep linkLayerAddress) (DhcpSystem.boot localIpAddr) events s)
    : (∀ payload ∈ s.sent, payload[242]? = some dhcpRequest →
        Pairs linkLayerAddress s.accepted s.transaction.xid payload)
      ∧ (s.transaction.state = .bound → ∃ m ∈ s.accepted, m.xid = s.transaction.xid
        ∧ s.client.localIpAddr = addressBytes m.yiaddr)
      ∧ ∀ args datagram, let client := (dhcpIn args datagram s.client).2.2
        (client.transaction.state = s.transaction.state →
          (client.transaction = s.transaction ↔ Consistent s.transaction datagram))
        ∧ (s.transaction.state = .selecting → client.transaction.state = .requesting → ∀ rand,
          (Pairs linkLayerAddress (readMessage datagram).toList s.transaction.xid (dhcpOut linkLayerAddress rand client).1
            ↔ Consistent s.transaction datagram)) := by
  have kept : RecordKept linkLayerAddress s := by
    refine run.invariant (RecordKept linkLayerAddress) (fun {s event s'} kept step => ?_) ⟨fun _ => rfl, nofun, nofun, nofun⟩
    obtain ⟨consistent, rfl⟩ := step
    cases event with
    | receive args datagram => exact kept.receive (consistent args datagram rfl)
    | out rand => exact kept.out rand
  refine ⟨kept.sent, kept.bound, fun args datagram => ⟨fun same => ?_, fun selecting requesting rand => ?_⟩⟩
  · exact unchanged_iff same
  · exact paired_iff selecting requesting

end Runs

--------------------------------------------------
-- Two servers
--------------------------------------------------

-- The quantifiers go over what is there, not over all values of the type.
instance (linkLayerAddress : List UInt8) (offers : List DhcpMessage) (xid : UInt32) (payload : List UInt8)
    : Decidable (Pairs linkLayerAddress offers xid payload) :=
  have (m : DhcpMessage) : Decidable (∃ ip ∈ (serverIdentifiers m.options).getLast?,
      payload = requestBytes linkLayerAddress m.xid m.yiaddr ip) := Option.decidableExistsMem _
  inferInstanceAs (Decidable (∃ m ∈ offers, m.xid = xid ∧ _))

instance (m : DhcpMessage) (state : DhcpState) : Decidable (m.Accepted state) := inferInstanceAs (Decidable (_ ∧ _))

instance (t : DhcpTransaction) : Decidable t.Waits := inferInstanceAs (Decidable (_ ∨ _))

instance (m : DhcpMessage) (t : DhcpTransaction) : Decidable (m.LeavesRecord t) :=
  have : Decidable (∀ ip ∈ (serverIdentifiers (handled t.state m.options)).getLast?, ip = t.serverIp) :=
    Option.decidableForallMem _
  inferInstanceAs (Decidable (_ ∧ _))

instance (t : DhcpTransaction) (datagram : List UInt8) : Decidable (Consistent t datagram) :=
  Option.decidableForallMem _

/-- A datagram of a server, with an address and options. -/
def replyBytes (xid yiaddr : UInt32) (options : List UInt8) : List UInt8 :=
  [2, 1, 6, 0] ++ out32 xid ++ out32 0 ++ out32 0 ++ out32 yiaddr ++ out32 0 ++ out32 0 ++ List.replicate 208 0
    ++ [99, 130, 83, 99] ++ options

/-- The option with the identifier of a server, and the one with a message type. -/
def serverOption (ip : UInt32) : List UInt8 := optionDhcpServerIdentifier :: 4 :: out32 ip
def typeOption (type : UInt8) : List UInt8 := [optionDhcpMessageType, 1, type]

def linkAddress : List UInt8 := [0x02, 0, 0, 0, 0, 1]
def noPorts : UdpHeader := ⟨67, 68, 0, 0⟩

/-- A DHCPDISCOVER, an offer, a second one that comes too late, the request, and its acknowledgement. -/
def offeredAddress : List DhcpEvent :=
  [.out 7, .receive noPorts (replyBytes 7 0x0a000005 (typeOption dhcpOffer ++ serverOption 0x0a000001)),
    .receive noPorts (replyBytes 7 0x0a000006 (typeOption dhcpOffer ++ serverOption 0x0a000002)), .out 0,
    .receive noPorts (replyBytes 7 0x0a000005 (serverOption 0x0a000001 ++ typeOption dhcpAck ++ [optionEnd]))]

def linkNext (s : DhcpSystem) (event : DhcpEvent) : Option DhcpSystem := some (s.step linkAddress event)

/-- The datagram of an event is consistent. -/
def ConsistentEvent (s : DhcpSystem) : DhcpEvent → Prop
  | .receive _ datagram => Consistent s.transaction datagram
  | .out _ => True

instance (s : DhcpSystem) (event : DhcpEvent) : Decidable (ConsistentEvent s event) :=
  match event with
  | .receive _ datagram => inferInstanceAs (Decidable (Consistent s.transaction datagram))
  | .out _ => inferInstanceAs (Decidable True)

/-- The second offer is dropped at its first option. -/
theorem dhcp_consistent_offered
    : ∃ s : DhcpSystem, s.transaction.state = .bound ∧ s.sent.length = 2
      ∧ (∀ payload ∈ s.sent, payload[242]? = some dhcpRequest → Pairs linkAddress s.accepted s.transaction.xid payload)
      ∧ ∃ m ∈ s.accepted, m.xid = s.transaction.xid ∧ s.client.localIpAddr = addressBytes m.yiaddr := by
  have checked : (runChecked linkNext ConsistentEvent offeredAddress (.boot [0, 0, 0, 0])).map
      (fun s => (s.transaction.state, s.sent.length)) = some (.bound, 2) := by
    decide +kernel
  simp only [Option.map_eq_some_iff, Prod.mk.injEq] at checked
  obtain ⟨s, run, bound, length⟩ := checked
  have run : Run (ConsistentStep linkAddress) (.boot [0, 0, 0, 0]) offeredAddress s :=
    (Run.of_checked run).mono fun step =>
      ⟨fun args datagram eq => by subst eq; exact step.2, (Option.some.inj step.1).symm⟩
  obtain ⟨sent, address, -⟩ := dhcp_consistent [0, 0, 0, 0] run
  exact ⟨s, bound, length, sent, address bound⟩

/-- A second offer names its server first: the client drops it, and requests the address of the first server from the
second one.
-/
theorem dhcp_inconsistent_second
    : ∃ s : DhcpSystem,
        Run (fun s event s' => s' = s.step linkAddress event) (.boot [0, 0, 0, 0])
          [.out 7, .receive noPorts (replyBytes 7 0x0a000005 (typeOption dhcpOffer ++ serverOption 0x0a000001)),
            .receive noPorts (replyBytes 7 0x0a000006 (serverOption 0x0a000002 ++ typeOption dhcpOffer)), .out 0] s
        ∧ s.sent.getLast? = some (requestBytes linkAddress 7 0x0a000005 0x0a000002)
        ∧ ¬ Pairs linkAddress s.accepted s.transaction.xid (requestBytes linkAddress 7 0x0a000005 0x0a000002) := by
  have checked : (runChecked linkNext (fun _ _ => True)
      [.out 7, .receive noPorts (replyBytes 7 0x0a000005 (typeOption dhcpOffer ++ serverOption 0x0a000001)),
        .receive noPorts (replyBytes 7 0x0a000006 (serverOption 0x0a000002 ++ typeOption dhcpOffer)), .out 0]
      (.boot [0, 0, 0, 0])).map
      (fun s => (s.sent.getLast?,
        decide (Pairs linkAddress s.accepted s.transaction.xid (requestBytes linkAddress 7 0x0a000005 0x0a000002))))
      = some (some (requestBytes linkAddress 7 0x0a000005 0x0a000002), false) := by
    decide +kernel
  simp only [Option.map_eq_some_iff, Prod.mk.injEq, decide_eq_false_iff_not] at checked
  obtain ⟨s, run, last, unpaired⟩ := checked
  exact ⟨s, (Run.of_checked run).mono fun step => (Option.some.inj step.1).symm, last, unpaired⟩

end Smews.Apps.Dhcp
