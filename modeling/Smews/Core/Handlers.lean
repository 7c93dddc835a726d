import Mathlib.Data.List.Basic

/-! The data of `handlers.h`: web applicative resources, TCP control packets and the tables
the build generates from them.
-/

namespace Smews.Core

/-- The identity of a heap block. Two allocations never have the same one. -/
abbrev Addr := Nat

/-- The bytes of a string of the source. -/
def ascii (s : String) : List UInt8 := s.toList.map fun c => UInt8.ofNat c.toNat

/-- A pointer held in a structure whose members `mem_alloc` leaves unset. -/
inductive Pointer
  | uninit
  | null
  | block (a : Addr)
deriving DecidableEq, Repr

/-- What `mem_alloc` returned, as a pointer. -/
def Pointer.ofOption : Option Addr → Pointer
  | none => .null
  | some a => .block a

--------------------------------------------------
-- Applications
--------------------------------------------------

/-- What is left to do of a generator function: it returns, leaving a value behind its
`post_data` pointer; it calls `out_c`; or it calls `in`, where `none` stands for `-1`.
-/
inductive Cont
  | ret (postData : Nat)
  | outC (c : UInt8) (k : Cont)
  | inC (k : Option UInt8 → Cont)

/-- A suspended coroutine as its stack holds it: nothing yet, inside `out_c` before the
byte `c` is stored, or inside `in` before the next byte is read.
-/
inductive Frame
  | empty
  | outStore (c : UInt8) (k : Cont)
  | inResume (k : Option UInt8 → Cont)

/-- The contents of the arguments block, `none` for a `NULL` pointer. -/
abbrev ArgsView := Option (Nat → UInt8)

/-- `enum prop_e`. -/
inductive Property
  | persistent
  | idempotent
  | volatile
deriving DecidableEq, Repr

/-- `union handlers_u`, with the member that the resource declares. The first argument of a
function counts the coroutines started so far: it stands for all that a function may depend
on besides its own arguments.
-/
inductive Handlers
  | get (doget : Nat → ArgsView → Cont)
  | post
      (dopostin : Nat → UInt8 → UInt8 → Option (Nat → UInt8) → Nat → Cont)
      (dopostout : Nat → UInt8 → Nat → Cont)

/-- `struct dynamic_resource`. -/
structure DynamicResource where
  handlers : Handlers
  prop : Property

/-- A `const struct output_handler_t *`: a control packet, an error page, or an entry of
`resources_index`.
-/
inductive HandlerRef
  | synack
  | ack
  | finack
  | rst
  | http404
  | http505
  | resource (index : Nat)
deriving DecidableEq, Repr

/-- The connection that a handler above IP is called for: the block it lives in, and what
`get_remote_ip`, `get_payload_size`, `get_protocol` and `get_send_code` return of it.
-/
structure ConnectionInfo where
  connection : Addr
  remoteIp : UInt32
  payloadSize : UInt16
  protocol : UInt8
  sendCode : UInt8
deriving DecidableEq, Repr

/-- A call of a handler above IP, with the payload that `dopacketin` reads and what it returns. -/
inductive PacketCall
  | packetIn (handler : HandlerRef) (info : ConnectionInfo) (payload : List UInt8) (returned : UInt8)
  | packetOut (handler : HandlerRef) (info : ConnectionInfo)
deriving DecidableEq, Repr

/-- The `gp_ip` member of `union handlers_u`: what `dopacketin` returns for a payload, and the
bytes that `dopacketout` passes to `out_c`. The calls so far stand for the variables of the
application.
-/
structure GpIpHandlers where
  protocol : UInt8
  dopacketin : Nat → List PacketCall → ConnectionInfo → List UInt8 → UInt8
  dopacketout : Nat → List PacketCall → ConnectionInfo → List UInt8

--------------------------------------------------
-- Output handlers
--------------------------------------------------

/-- `enum arg_type_e`. -/
inductive ArgType
  | str
  | ui8
  | ui16
deriving DecidableEq, Repr

/-- `struct arg_ref_t`. -/
structure ArgRef where
  argType : ArgType
  argSize : UInt8
  argOffset : UInt8
deriving DecidableEq, Repr

/-- `struct handler_args_t`. A pointer into `args_tree` is the list of the bytes from there
on.
-/
structure HandlerArgs where
  argsTree : List UInt8
  argsIndex : List ArgRef
  argsSize : UInt16

/-- `struct static_resource`. The generated files begin with their HTTP header, and their
length is a 32-bit number.
-/
structure StaticResource where
  data : List UInt8
  nonempty : data ≠ []
  fits : data.length < 0x100000000

/-- The members of `union handler_data_u`, tagged with `enum handler_type_e`. -/
inductive HandlerData
  | control (length flags : UInt8)
  | file (resource : StaticResource)
  | generator (resource : DynamicResource)
  | generalIp (handlers : GpIpHandlers)

/-- `struct output_handler_t`. -/
structure OutputHandler where
  data : HandlerData
  handlerComet : Bool
  handlerStream : Bool
  args : HandlerArgs
  mimesIndex : List UInt8

def tcpFin : UInt8 := 0x01
def tcpSyn : UInt8 := 0x02
def tcpRst : UInt8 := 0x04
def tcpPsh : UInt8 := 0x08
def tcpAck : UInt8 := 0x10

/-- A handler without comet, arguments or content types, as the static initialisers of
`handlers.c` leave these members.
-/
def OutputHandler.plain (data : HandlerData) : OutputHandler :=
  {
    data
    handlerComet := false
    handlerStream := false
    args := { argsTree := [], argsIndex := [], argsSize := 0 }
    mimesIndex := []
  }

def refSynack : OutputHandler := .plain (.control 4 (tcpSyn ||| tcpAck))
def refAck : OutputHandler := .plain (.control 0 tcpAck)
def refFinack : OutputHandler := .plain (.control 0 (tcpAck ||| tcpFin))
def refRst : OutputHandler := .plain (.control 0 (tcpRst ||| tcpAck))

/-- `output_handler == &http_404_handler || output_handler == &http_505_handler`. -/
def HandlerRef.isError : HandlerRef → Bool
  | .http404 | .http505 => true
  | _ => false

/-- The content types that the parser and the generators tell apart, as `defines.h` numbers
them.
-/
def contentTypeUrlencoded : UInt8 := 4

def contentTypeMultipart : UInt8 := 9

--------------------------------------------------
-- A build
--------------------------------------------------

/-- What the build fixes: macros, structure sizes, the generated tables, and how many bytes
of the shared stack a suspended coroutine occupies. The memory of a local variable that is
read before it is written holds `garbage`.
-/
structure Program where
  outputBufferSize : UInt16
  chuncksNbits : Nat
  devMtu : Option UInt16
  localIpAddr : UInt32
  sizeofConnection : UInt16
  sizeofService : UInt16
  sizeofInFlightInfos : UInt16
  sizeofContext : UInt16
  sizeofPostData : UInt16
  sizeofBoundary : UInt16
  stackUse : Frame → UInt16
  http404 : StaticResource
  http505 : StaticResource
  resourceCount : Nat
  resource : Nat → OutputHandler
  urlsTree : List UInt8
  garbage : UInt16
  outputBufferSize_pos : 0 < outputBufferSize
  resource_ne_control : ∀ n length flags, (resource n).data ≠ .control length flags

namespace Program

variable (p : Program)

/-- The handler a pointer names. -/
def handler : HandlerRef → OutputHandler
  | .synack => refSynack
  | .ack => refAck
  | .finack => refFinack
  | .rst => refRst
  | .http404 => .plain (.file p.http404)
  | .http505 => .plain (.file p.http505)
  | .resource index => p.resource index

/-- `resources_index[i]`, undefined past the table. -/
def resourcesIndex (i : UInt8) : Option HandlerRef :=
  if i.toNat < p.resourceCount then some (.resource i.toNat) else none

/-- `MAX_MSS`. -/
def maxMss : UInt16 :=
  match p.devMtu with
  | none => 0xffff
  | some mtu => mtu - 40

/-- `MAX_OUT_SIZE`. -/
def maxOutSize (mss : UInt16) : Nat := mss.toNat >>> p.chuncksNbits <<< p.chuncksNbits

/-- `handler_type == type_control`. -/
def isControl (h : HandlerRef) : Bool :=
  match (p.handler h).data with
  | .control _ _ => true
  | _ => false

/-- `handler_type == type_generator`. -/
def isGenerator (h : HandlerRef) : Bool :=
  match (p.handler h).data with
  | .generator _ => true
  | _ => false

/-- `IS_GPIP_HANDLER`. -/
def isGpIp (h : HandlerRef) : Bool :=
  match (p.handler h).data with
  | .generalIp _ => true
  | _ => false

/-- `smews_gpip_get_output_handler`: the first registered handler of a protocol. -/
def gpIpGetOutputHandler (protocol : UInt8) : Option HandlerRef :=
  ((List.range p.resourceCount).find? fun i =>
    match (p.resource i).data with
    | .generalIp g => g.protocol = protocol
    | _ => false).map .resource

end Program

end Smews.Core
