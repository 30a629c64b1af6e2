import Mathlib.Logic.Function.Basic
import PortPort.Lib.Dict
import PortPort.Common.Message

/-! # Sockets, selectors and what a handler leaves behind

The kernel's record of a connected socket is what its owner has done with it. A handler is a
function from the state of its thread, and from the results of the socket calls it makes, to an
`Outcome`. -/

namespace PortPort

/-- A selector event mask: `EVENT_READ` and `EVENT_WRITE`. -/
structure Mask where
  read : Bool
  write : Bool
  deriving DecidableEq

def Mask.r : Mask := ⟨true, false⟩
def Mask.rw : Mask := ⟨true, true⟩

/-- The events reported are among those registered. -/
def Mask.le (m registered : Mask) : Bool :=
  (!m.read || registered.read) && (!m.write || registered.write)

/-- A connected stream socket: the bytes `recv` has returned, the bytes `send` has accepted,
whether `recv` has returned end of file, and how often the program has closed it. -/
structure Sock where
  received : Bytes := []
  sent : Bytes := []
  eof : Bool := false
  closes : Nat := 0
  deriving DecidableEq

namespace Sock

def isOpen (s : Sock) : Bool := s.closes = 0

def recv (s : Sock) (data : Bytes) : Sock :=
  { s with received := s.received ++ data, eof := s.eof || data.isEmpty }

def send (s : Sock) (data : Bytes) : Sock := { s with sent := s.sent ++ data }

def close (s : Sock) : Sock := { s with closes := s.closes + 1 }

end Sock

/-- The size that every `recv` of the steady loops asks for. -/
def RECV_SIZE : Nat := 4096

/-- What the environment may answer to `recv(4096)`. -/
def recvAllowed (r : Except OSError Bytes) : Bool :=
  match r with
  | .ok data => data.length ≤ RECV_SIZE
  | .error _ => true

/-- What the environment may answer to `send(data)`: it accepts some prefix. -/
def sendAllowed (r : Except OSError Nat) (data : Bytes) : Bool :=
  match r with
  | .ok n => n ≤ data.length
  | .error _ => true

/-- The state a handler leaves behind, the messages it put on the other thread's queue, each with
the number of the proxied connection it is about, and the exception that escaped it. The numbers
are bookkeeping: no message carries one. -/
structure Outcome (σ : Type) where
  state : σ
  puts : List (Nat × QueuedRelayMessage) := []
  raised : Option PyError := none

end PortPort
