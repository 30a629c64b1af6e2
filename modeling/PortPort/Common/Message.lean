import Mathlib.Data.List.Basic

/-! # Messages of the portport protocol (`common.py`)

The enumerations, exceptions and records that the server and the client share. Byte strings are
lists of bytes. An address text is identified with the address it denotes: `ip_address`, `str`,
`inet_pton` and `inet_ntop` are mutually inverse between the two. -/

namespace PortPort

abbrev Bytes := List UInt8

/-- `OSError` and those of its subclasses that some `except` clause names. -/
inductive OSError
  | brokenPipe | connectionReset | connectionAborted | connectionRefused
  | blockingIo | timeout | sslWantRead | sslWantWrite | ssl
  | other (errno : Nat)
  deriving DecidableEq, Repr

/-- The exceptions the program raises or sees raised. -/
inductive PyError
  | exception (msg : String)
  | portPortBadVersion (msg : String)
  | portPortUnsupportedMsgType (msg : String)
  | incompleteFrame (msg : String)
  | relayNoAvailablePort (msg : String)
  | valueError (msg : String)
  | indexError | structError | overflowError | unicodeDecodeError | keyError
  | os (e : OSError)
  deriving DecidableEq, Repr

inductive RelayMessageTypes
  | newConnection | closeConnection | message
  deriving DecidableEq, Repr

inductive PortPortMessageType
  | createRelay | destroyRelay | newConnection | closeConnection | data | openRelay | error
  | auth | authSuccess
  deriving DecidableEq, Repr

namespace PortPortMessageType

def value : PortPortMessageType → Nat
  | createRelay => 1 | destroyRelay => 2 | newConnection => 3 | closeConnection => 4 | data => 5
  | openRelay => 6 | error => 7 | auth => 8 | authSuccess => 9

/-- `PortPortMessageType(v)`. -/
def ofValue (v : Nat) : Except PyError PortPortMessageType :=
  match v with
  | 1 => .ok createRelay | 2 => .ok destroyRelay | 3 => .ok newConnection
  | 4 => .ok closeConnection | 5 => .ok data | 6 => .ok openRelay | 7 => .ok error
  | 8 => .ok auth | 9 => .ok authSuccess
  | v => .error (.valueError s!"{v} is not a valid PortPortMessageType")

theorem ofValue_value (t : PortPortMessageType) : ofValue t.value = .ok t := by cases t <;> rfl

theorem value_of_ofValue {v : Nat} {t : PortPortMessageType} (h : ofValue v = .ok t) :
    v = t.value := by
  unfold ofValue at h
  split at h <;> cases h <;> rfl

theorem value_lt (t : PortPortMessageType) : t.value < 256 := by cases t <;> decide

end PortPortMessageType

inductive PortPortErrorTypes
  | noError | relayDoesNotExist | authFailure | relayFailurePortExhaustion | invalidMsgVersion
  | unknownMsgType
  deriving DecidableEq, Repr

namespace PortPortErrorTypes

def value : PortPortErrorTypes → Nat
  | noError => 1 | relayDoesNotExist => 2 | authFailure => 3 | relayFailurePortExhaustion => 4
  | invalidMsgVersion => 5 | unknownMsgType => 6

/-- `PortPortErrorTypes(v)`. -/
def ofValue (v : Nat) : Except PyError PortPortErrorTypes :=
  match v with
  | 1 => .ok noError | 2 => .ok relayDoesNotExist | 3 => .ok authFailure
  | 4 => .ok relayFailurePortExhaustion | 5 => .ok invalidMsgVersion | 6 => .ok unknownMsgType
  | v => .error (.valueError s!"{v} is not a valid PortPortErrorTypes")

theorem ofValue_value (t : PortPortErrorTypes) : ofValue t.value = .ok t := by cases t <;> rfl

theorem value_of_ofValue {v : Nat} {t : PortPortErrorTypes} (h : ofValue v = .ok t) :
    v = t.value := by
  unfold ofValue at h
  split at h <;> cases h <;> rfl

theorem value_lt (t : PortPortErrorTypes) : t.value < 256 := by cases t <;> decide

end PortPortErrorTypes

/-- A packed address of `n` bytes. -/
@[ext] structure Packed (n : Nat) where
  bytes : Bytes
  length_eq : bytes.length = n
  deriving DecidableEq

inductive IPAddress
  | ipv4 (a : Packed 4)
  | ipv6 (a : Packed 16)
  deriving DecidableEq

/-- The address `a.b.c.d`. -/
def IPAddress.dotted (a b c d : UInt8) : IPAddress := .ipv4 ⟨[a, b, c, d], rfl⟩

/-- An address and a port, as `accept` and `getpeername` return them. -/
abbrev Peer := IPAddress × Int

/-- An item of the queues between two threads: kind, address, port, payload, relay port. -/
structure QueuedRelayMessage where
  kind : RelayMessageTypes
  addr : IPAddress
  port : Int
  data : Bytes
  relayPort : Int
  deriving DecidableEq

def QueuedRelayMessage.peer (m : QueuedRelayMessage) : Peer := (m.addr, m.port)

/-- A message between portport client and server, with the defaults of its constructor. -/
structure PortPortMessage where
  msgType : PortPortMessageType
  addr : IPAddress := .dotted 0 0 0 0
  port : Int := -1
  relayPort : Int := -1
  data : Bytes := []
  version : Int := 1
  error : PortPortErrorTypes := .noError
  auth : String := ""
  deriving DecidableEq

end PortPort
