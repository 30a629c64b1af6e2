import PortPort.Common.RecvLoop
import PortPort.Lib.Tunnel
import PortPort.Server.Manager
import PortPort.Client.RemoteProxy

/-! # Queue items, their frames and their meaning

An item that one end puts on its queue becomes a frame, and the other end makes the same item of
the frame. -/

namespace PortPort
open Tunnel (Msg)

/-- What an item of a queue between the threads means. -/
def msgOf (q : QueuedRelayMessage) : Msg Peer UInt8 :=
  match q.kind with
  | .newConnection => .opened q.peer
  | .message => .data q.peer q.data
  | .closeConnection => .closed q.peer

@[simp] theorem msgOf_key (q : QueuedRelayMessage) : (msgOf q).key = q.peer := by
  unfold msgOf
  split <;> rfl

/-- An item with the number of its connection. -/
def tagged (x : Nat × QueuedRelayMessage) : Nat × Msg Peer UInt8 := (x.1, msgOf x.2)

/-- An item about a connection of the relay with this port. -/
structure ItemOk (relayPort : Int) (q : QueuedRelayMessage) : Prop where
  port : 0 ≤ q.port ∧ q.port < 65536
  relayPort : q.relayPort = relayPort
  data : q.kind = .message → q.data ≠ [] ∧ q.data.length ≤ RECV_SIZE
  noData : q.kind ≠ .message → q.data = []

namespace ItemOk
variable {p : Int} {q : QueuedRelayMessage}

theorem wellFormed (h : ItemOk p q) (hp : 0 ≤ p ∧ p < 65536) :
    WellFormed (Manager.frameOf q) := by
  have hport := h.port
  have hrelay := h.relayPort
  obtain ⟨kind, addr, port, data, relayPort⟩ := q
  cases kind with
  | newConnection | closeConnection =>
    exact ⟨rfl, ⟨hport, by subst hrelay; exact hp⟩, rfl, nofun⟩
  | message =>
    refine ⟨rfl, ⟨⟨hport, by subst hrelay; exact hp⟩, ?_⟩, rfl, nofun⟩
    exact Nat.lt_of_le_of_lt (h.data rfl).2 (by decide)

theorem itemOf_frameOf (h : ItemOk p q) : itemOf (Manager.frameOf q) = some q := by
  have hno := h.noData
  obtain ⟨kind, addr, port, data, relayPort⟩ := q
  cases kind with
  | newConnection | closeConnection =>
    obtain rfl := hno (by simp)
    rfl
  | message => rfl

/-- The end of a connection is reported. -/
theorem close {addr : IPAddress} {port relayPort : Int} (hport : 0 ≤ port ∧ port < 65536)
    (hrelay : relayPort = p) : ItemOk p ⟨.closeConnection, addr, port, [], relayPort⟩ where
  port := hport
  relayPort := hrelay
  data h := by cases h
  noData _ := rfl

end ItemOk

/-- Both ends make the same frame of an item. -/
theorem RemoteProxy.frameOf_eq {q : QueuedRelayMessage} (h : q.kind ≠ .newConnection) :
    RemoteProxy.frameOf q = .ok (Manager.frameOf q) := by
  obtain ⟨kind, addr, port, data, relayPort⟩ := q
  cases kind with
  | newConnection => exact absurd rfl h
  | closeConnection | message => rfl

end PortPort
