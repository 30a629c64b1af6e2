import PortPort.Lib.BigEndian
import PortPort.Common.Message

/-! # `PortPortMessage.serialize` and `PortPortMessage.deserialize`

Both functions follow the source branch by branch, with its offsets into the buffer. -/

namespace PortPort
open BigEndian

/-- `data[i]`. -/
def index (data : Bytes) (i : Nat) : Except PyError UInt8 :=
  match data[i]? with
  | some b => .ok b
  | none => .error .indexError

/-- `data[i:j]`: a slice past the end is silently short. -/
def slice (data : Bytes) (i j : Nat) : Bytes := (data.drop i).take (j - i)

/-- `struct.pack` of one unsigned big-endian field of `w` bytes. -/
def pack (w : Nat) (n : Int) : Except PyError Bytes :=
  if 0 ≤ n ∧ n < 256 ^ w then .ok (toBE w n.toNat) else .error .structError

/-- `struct.unpack` of one unsigned big-endian field of `w` bytes. -/
def unpack (w : Nat) (b : Bytes) : Except PyError Int :=
  if b.length = w then .ok (ofBE b) else .error .structError

/-- `inet_ntop` on an address of `n` bytes. -/
def inetNtop (n : Nat) (b : Bytes) : Except PyError (Packed n) :=
  if h : b.length = n then .ok ⟨b, h⟩
  else .error (.valueError "invalid length of packed IP address string")

/-- `token.decode('utf8')`. -/
def decodeUtf8 (b : Bytes) : Except PyError String :=
  match String.fromUTF8? ⟨b.toArray⟩ with
  | some s => .ok s
  | none => .error .unicodeDecodeError

/-- `s.encode('utf8')`. -/
def encodeUtf8 (s : String) : Bytes := s.toUTF8.data.toList

namespace PortPortMessage

def VERSION : Nat := 1

/-- The address family, the packed address and the two ports, as the three message kinds that
name a connection carry them. -/
def serializeConn (m : PortPortMessage) : Except PyError Bytes := do
  let address : Bytes := match m.addr with
    | .ipv6 a => 6 :: a.bytes
    | .ipv4 a => 4 :: a.bytes
  let port ← pack 2 m.port
  let relayPort ← pack 2 m.relayPort
  return address ++ port ++ relayPort

def serialize (m : PortPortMessage) : Except PyError Bytes := do
  let version ← pack 1 m.version
  let msgHeader := 64 :: UInt8.ofNat m.msgType.value :: version
  match m.msgType with
  | .error => return msgHeader ++ [UInt8.ofNat m.error.value]
  | .auth =>
    -- the length field counts characters, not encoded bytes
    let length ← pack 2 m.auth.length
    return msgHeader ++ length ++ encodeUtf8 m.auth
  | .data =>
    let conn ← m.serializeConn
    let length ← pack 4 m.data.length
    return msgHeader ++ conn ++ length ++ m.data
  | .createRelay | .authSuccess => return msgHeader
  | .openRelay | .destroyRelay => return msgHeader ++ (← pack 2 m.relayPort)
  | .newConnection | .closeConnection => return msgHeader ++ (← m.serializeConn)

/-- The address read at offset 4, with the offset behind it. -/
def deserializeAddress (data : Bytes) : Except PyError (IPAddress × Nat) := do
  let addressType ← index data 3
  let offset := 4
  if addressType = 6 then
    let a ← inetNtop 16 (slice data offset (offset + 16))
    return (.ipv6 a, offset + 16)
  else if addressType = 4 then
    let a ← inetNtop 4 (slice data offset (offset + 4))
    return (.ipv4 a, offset + 4)
  else
    throw (.exception s!"Unknown address type: {addressType.toNat}")

/-- The last branch of `deserialize`: the three kinds that name a connection. -/
def deserializeConn (msgType : PortPortMessageType) (version : Int) (data : Bytes) :
    Except PyError (PortPortMessage × Bytes) := do
  let (addr, offset) ← deserializeAddress data
  let port ← unpack 2 (slice data offset (offset + 2))
  let offset := offset + 2
  let relayPort ← unpack 2 (slice data offset (offset + 2))
  let offset := offset + 2
  if msgType = .newConnection ∨ msgType = .closeConnection then
    return ({ msgType, version, relayPort, addr, port }, data.drop offset)
  else if msgType = .data then
    let msgLen ← unpack 4 (slice data offset (offset + 4))
    let offset := offset + 4
    let msgData := slice data offset (offset + msgLen.toNat)
    if (msgData.length : Int) ≠ msgLen then
      throw (.incompleteFrame "pending additional DATA bytes!")
    let offset := offset + msgLen.toNat
    return ({ msgType, version, relayPort, addr, port, data := msgData }, data.drop offset)
  else
    throw (.exception s!"Invalid message type: {msgType.value}")

/-- What `deserialize` reads behind the header of a frame of type `msgType`. -/
def deserializeFields (msgType : PortPortMessageType) (version : Int) (data : Bytes) :
    Except PyError (PortPortMessage × Bytes) := do
  match msgType with
  | .error =>
    let msgError ← PortPortErrorTypes.ofValue (← index data 3).toNat
    return ({ msgType, version, error := msgError }, data.drop 4)
  | .auth =>
    let tokenLength := (← unpack 2 (slice data 3 5)).toNat
    -- a slice past the end of the buffer is not refused: the token may be cut short
    let auth ← decodeUtf8 (slice data 5 (5 + tokenLength))
    return ({ msgType, version, auth }, data.drop (5 + tokenLength))
  | .createRelay | .authSuccess => return ({ msgType, version }, data.drop 3)
  | .destroyRelay | .openRelay =>
    let relayPort ← unpack 2 (slice data 3 5)
    return ({ msgType, version, relayPort }, data.drop 5)
  | .newConnection | .closeConnection | .data => deserializeConn msgType version data

def deserialize (data : Bytes) : Except PyError (PortPortMessage × Bytes) := do
  if data.length = 0 then
    throw (.exception "empty stream")
  if (← index data 0) ≠ 64 then
    throw (.exception "invalid stream")
  let msgType ← PortPortMessageType.ofValue (← index data 1).toNat
  let msgVersion := (← index data 2).toNat
  if msgVersion ≠ VERSION then
    throw (.portPortBadVersion
      s!"unsupported PORT PORT version = {msgVersion}, server running {VERSION}")
  deserializeFields msgType msgVersion data

end PortPortMessage

/-- `grab_msg`. -/
def grabMsg (buffer : Bytes) : Except PyError (PortPortMessage × Bytes) :=
  PortPortMessage.deserialize buffer

end PortPort
