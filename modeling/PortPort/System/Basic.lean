import PortPort.Common.RecvLoop
import PortPort.Lib.Transition
import PortPort.Server.ManagerMoves
import PortPort.Client.RemoteProxy

/-! # The composed system

One relay, its management thread, the remote proxy thread and the local proxy thread, joined by
their queues and by a reliable ordered byte stream in each direction: a `send` that accepts `n`
bytes puts them on the stream, and a `recv` takes some of the oldest bytes off it. A run starts
behind the handshake, with both streams at a frame boundary.

`downTags` and `upTags` name, message by message, the proxied connections that the messages in
flight between the relay and the local proxy are about. They are bookkeeping: nothing the program
does depends on them. -/

namespace PortPort

structure System where
  server : Server
  client : Client
  /-- bytes on their way from the server to the client -/
  down : Bytes := []
  /-- bytes on their way from the client to the server -/
  up : Bytes := []
  downTags : List Nat := []
  upTags : List Nat := []

namespace System
open Relay (RelayAction)
open Server (ManagerAction)
open Client (RemoteAction)
open LocalProxy (LocalAction)

inductive Action
  | mgr (a : ManagerAction)
  | relay (a : RelayAction)
  | remote (a : RemoteAction)
  | proxy (a : LocalAction)
  /-- the service's close event is set -/
  | serverShutdown
  /-- the client's close event is set -/
  | clientShutdown

/-- The relay of the composed system. -/
def relay (s : System) : Relay := s.server.relay 0

def proxy (s : System) : LocalProxy := s.client.proxy

/-- What a callback that found `sendq` and left `sendq'` has sent. -/
def sentBy (sendq sendq' : Bytes) : Bytes := sendq.take (sendq.length - sendq'.length)

/-- What a callback that found `recvq` and left `recvq'` has received. -/
def receivedBy (recvq recvq' : Bytes) : Bytes := recvq'.drop recvq.length

/-- A move of the management thread. The callback of the management socket moves bytes. -/
def mgrStep (s : System) (a : ManagerAction) : Option System :=
  match s.server.mgrStep a with
  | none => none
  | some server =>
    match a with
    | .clientIo _ =>
      let received := receivedBy s.server.mgr.recvq server.mgr.recvq
      if received <+: s.up then
        some { s with
          server
          down := s.down ++ sentBy s.server.mgr.sendq server.mgr.sendq
          up := s.up.drop received.length }
      else none
    | _ => some { s with server }

/-- A move of the relay thread. A message it takes from `outbound` is the oldest one in flight
from the client. -/
def relayStep (s : System) (a : RelayAction) : Option System :=
  (s.server.relayStep 0 a).map fun (server, puts) =>
    let taken := s.relay.outbound.length - (server.relay 0).outbound.length
    { s with
      server
      downTags := s.downTags ++ puts.map Prod.fst
      upTags := s.upTags.drop taken }

/-- A move of the remote proxy thread. The callback of the management socket moves bytes. -/
def remoteStep (s : System) (a : RemoteAction) : Option System :=
  match s.client.remoteStep a with
  | none => none
  | some client =>
    match a with
    | .relayIo _ =>
      let received := receivedBy s.client.remote.recvq client.remote.recvq
      if received <+: s.down then
        some { s with
          client
          up := s.up ++ sentBy s.client.remote.sendq client.remote.sendq
          down := s.down.drop received.length }
      else none
    | _ => some { s with client }

/-- The item that the local proxy thread takes next is about the proxied connection that the
oldest message in flight from the relay is about. -/
def tagAllowed (s : System) : LocalAction → Bool
  | .item n _ => s.downTags.head? = some n
  | _ => true

/-- A move of the local proxy thread. -/
def proxyStep (s : System) (a : LocalAction) : Option System :=
  if s.tagAllowed a then
    (s.client.proxyStep a).map fun (client, puts) =>
      let taken := s.proxy.pending.length - client.proxy.pending.length
      { s with
        client
        downTags := s.downTags.drop taken
        upTags := s.upTags ++ puts.map Prod.fst }
  else none

theorem relayStep_cases {s s' : System} {a : RelayAction} (h : s.relayStep a = some s') :
    ∃ r puts, s.relay.step s.server.closeService a = some (r, puts) ∧
      s' = { s with
        server := s.server.relayMoved 0 r puts
        downTags := s.downTags ++ puts.map Prod.fst
        upTags := s.upTags.drop (s.relay.outbound.length - r.outbound.length) } := by
  obtain ⟨⟨srv, puts⟩, hsrv, rfl⟩ := Option.map_eq_some_iff.mp h
  obtain ⟨-, -, r, hr, rfl⟩ := Server.relayStep_cases hsrv
  exact ⟨r, puts, hr, by simp⟩

theorem proxyStep_cases {s s' : System} {a : LocalAction} (h : s.proxyStep a = some s') :
    s.tagAllowed a ∧ ∃ l puts, s.proxy.step s.client.close a = some (l, puts) ∧
      s' = { s with
        client := s.client.proxyMoved l puts
        downTags := s.downTags.drop (s.proxy.pending.length - l.pending.length)
        upTags := s.upTags ++ puts.map Prod.fst } := by
  rw [proxyStep, Option.ite_none_right_eq_some] at h
  obtain ⟨htag, h⟩ := h
  obtain ⟨⟨c, puts⟩, hc, rfl⟩ := Option.map_eq_some_iff.mp h
  obtain ⟨l, hl, rfl⟩ := Client.proxyStep_cases hc
  exact ⟨htag, l, puts, hl, rfl⟩

theorem mgrStep_cases {s s' : System} {a : ManagerAction} (h : s.mgrStep a = some s') :
    ∃ server, s.server.mgrStep a = some server ∧
      ((∃ io, a = .clientIo io ∧ receivedBy s.server.mgr.recvq server.mgr.recvq <+: s.up ∧
          s' = { s with
            server
            down := s.down ++ sentBy s.server.mgr.sendq server.mgr.sendq
            up := s.up.drop (receivedBy s.server.mgr.recvq server.mgr.recvq).length }) ∨
        (∀ io, a ≠ .clientIo io) ∧ s' = { s with server }) := by
  unfold mgrStep at h
  split at h
  · cases h
  refine ⟨_, ‹_›, ?_⟩
  split at h
  · simp only [Option.ite_none_right_eq_some, Option.some.injEq] at h
    exact .inl ⟨_, rfl, h.1, h.2.symm⟩
  · cases h
    exact .inr ⟨‹_›, rfl⟩

theorem remoteStep_cases {s s' : System} {a : RemoteAction} (h : s.remoteStep a = some s') :
    ∃ client, s.client.remoteStep a = some client ∧
      ((∃ io, a = .relayIo io ∧
          receivedBy s.client.remote.recvq client.remote.recvq <+: s.down ∧
          s' = { s with
            client
            up := s.up ++ sentBy s.client.remote.sendq client.remote.sendq
            down := s.down.drop (receivedBy s.client.remote.recvq client.remote.recvq).length }) ∨
        (∀ io, a ≠ .relayIo io) ∧ s' = { s with client }) := by
  unfold remoteStep at h
  split at h
  · cases h
  refine ⟨_, ‹_›, ?_⟩
  split at h
  · simp only [Option.ite_none_right_eq_some, Option.some.injEq] at h
    exact .inl ⟨_, rfl, h.1, h.2.symm⟩
  · cases h
    exact .inr ⟨‹_›, rfl⟩

def step (s : System) : Action → Option System
  | .mgr a => s.mgrStep a
  | .relay a => s.relayStep a
  | .remote a => s.remoteStep a
  | .proxy a => s.proxyStep a
  | .serverShutdown => some { s with server := { s.server with closeService := true } }
  | .clientShutdown => some { s with client := { s.client with close := true } }

theorem mgrStep_client {s s' : System} {a : ManagerAction} (h : s.mgrStep a = some s') :
    s'.client = s.client := by
  obtain ⟨server, -, ⟨io, -, -, rfl⟩ | ⟨-, rfl⟩⟩ := mgrStep_cases h
  · rfl
  · rfl

theorem mgrStep_server {s s' : System} {a : ManagerAction} (h : s.mgrStep a = some s') :
    s.server.mgrStep a = some s'.server := by
  obtain ⟨server, hserver, ⟨io, -, -, rfl⟩ | ⟨-, rfl⟩⟩ := mgrStep_cases h
  · exact hserver
  · exact hserver

theorem remoteStep_server {s s' : System} {a : RemoteAction} (h : s.remoteStep a = some s') :
    s'.server = s.server := by
  obtain ⟨client, -, ⟨io, -, -, rfl⟩ | ⟨-, rfl⟩⟩ := remoteStep_cases h
  · rfl
  · rfl

theorem remoteStep_client {s s' : System} {a : RemoteAction} (h : s.remoteStep a = some s') :
    s.client.remoteStep a = some s'.client := by
  obtain ⟨client, hclient, ⟨io, -, -, rfl⟩ | ⟨-, rfl⟩⟩ := remoteStep_cases h
  · exact hclient
  · exact hclient

theorem remoteStep_proxy {s s' : System} {a : RemoteAction} (h : s.remoteStep a = some s') :
    ∃ toLocal wakeupPending, s'.proxy = { s.proxy with toLocal, wakeupPending } :=
  Client.remoteStep_proxy (remoteStep_client h)

/-- Only the relay thread touches the connections of the relay. -/
theorem step_relay {s s' : System} {a : Action} (hn : 0 < s.server.nrelays)
    (h : step s a = some s') :
    s'.relay.conns = s.relay.conns ∨
      ∃ a' puts, a = .relay a' ∧ s.relay.step s.server.closeService a' = some (s'.relay, puts) ∧
        s'.proxy = s.proxy := by
  cases a with
  | mgr a =>
    obtain ⟨-, hk⟩ := Server.mgrStep_relaysKept (mgrStep_server h)
    obtain ⟨_, _, _, _, hr⟩ := hk 0 hn
    exact .inl (by rw [relay, hr]; rfl)
  | relay a =>
    obtain ⟨r, puts, hr, rfl⟩ := relayStep_cases h
    exact .inr ⟨a, puts, rfl, by simpa [relay] using hr, rfl⟩
  | remote a =>
    exact .inl (by rw [relay, remoteStep_server h]; rfl)
  | proxy a =>
    obtain ⟨-, l, puts, -, rfl⟩ := proxyStep_cases h
    exact .inl rfl
  | serverShutdown | clientShutdown =>
    cases h
    exact .inl rfl

/-- Only the local proxy thread touches the connections of the local proxy. -/
theorem step_proxy {s s' : System} {a : Action} (h : step s a = some s') :
    s'.proxy.conns = s.proxy.conns ∨
      ∃ a' puts, a = .proxy a' ∧ s.proxy.step s.client.close a' = some (s'.proxy, puts) ∧
        s'.relay = s.relay := by
  cases a with
  | mgr a => exact .inl (by rw [proxy, mgrStep_client h]; rfl)
  | relay a =>
    obtain ⟨r, puts, -, rfl⟩ := relayStep_cases h
    exact .inl rfl
  | remote a =>
    obtain ⟨toLocal, wakeupPending, hp⟩ := remoteStep_proxy h
    exact .inl (by rw [hp])
  | proxy a =>
    obtain ⟨-, l, puts, hl, rfl⟩ := proxyStep_cases h
    exact .inr ⟨a, puts, rfl, hl, rfl⟩
  | serverShutdown | clientShutdown =>
    cases h
    exact .inl rfl

/-- The step that takes an item off the queue of the local proxy. -/
theorem item_cases {s s' : System} {n : Nat} {io : LocalProxy.ConnectIO}
    (h : step s (.proxy (.item n io)) = some s') :
    ∃ left q rest, s.proxy.phase = .batch (left + 1) ∧ s.proxy.toLocal = q :: rest ∧
      s.downTags.head? = some n ∧
      s'.proxy = LocalProxy.after ({ s.proxy with toLocal := rest }.handleItem n q io)
        (.batch left) := by
  obtain ⟨htag, l, puts, hl, rfl⟩ := proxyStep_cases h
  obtain ⟨left, q, rest, hphase, hto, rfl, -⟩ := LocalProxy.step_item hl
  exact ⟨left, q, rest, hphase, hto, by simpa [tagAllowed] using htag, rfl⟩

/-- The state behind the handshake that announced a relay on `port`. -/
def start (port : Int) : System where
  server :=
    { mgr := { relays := AList.singleton port 0 }
      relay := fun _ => { identifyingPort := port }
      nrelays := 1 }
  client := { remote := {}, proxy := { remotePort := port } }

/-- A run may start with any port that `bind` can give. -/
def Init (s : System) : Prop := ∃ port : Int, 0 < port ∧ port < 65536 ∧ s = start port

/-- Reachable by steps each of which meets the condition `P` on the state before it. -/
abbrev Reachable (P : System → Action → Prop) : System → Prop :=
  Transition.Reach (Transition.Fires step) P Init

/-! ## Conditions on a run -/

/-- Every address that `accept` returns meets the condition `C`. -/
def OnAccept (C : System → Peer → Prop) (s : System) (a : Action) : Prop :=
  ∀ addr, a = .relay (.accept (.ok addr)) → C s addr

/-- The test for `OnAccept`. -/
def onAccept (C : System → Peer → Prop) [∀ s addr, Decidable (C s addr)] (s : System) :
    Action → Bool
  | .relay (.accept (.ok addr)) => decide (C s addr)
  | _ => true

theorem onAccept_iff {C : System → Peer → Prop} [∀ s addr, Decidable (C s addr)] {s : System}
    {a : Action} : onAccept C s a ↔ OnAccept C s a := by
  unfold onAccept OnAccept
  split <;> simp_all

/-- `accept` has not returned the address before. -/
def NewPeer (s : System) (addr : Peer) : Prop :=
  ∀ n < s.relay.nconns, (s.relay.conns n).peer ≠ addr

instance (s : System) (addr : Peer) : Decidable (NewPeer s addr) :=
  inferInstanceAs (Decidable (∀ n < s.relay.nconns, (s.relay.conns n).peer ≠ addr))

/-- The address is not in the relay's table. -/
def FreshPeer (s : System) (addr : Peer) : Prop := s.relay.connectionTable.lookup addr = none

instance (s : System) (addr : Peer) : Decidable (FreshPeer s addr) :=
  inferInstanceAs (Decidable (_ = none))

/-- The execution of a list of actions from the start. -/
def run (test : System → Action → Bool) (as : List Action) : Option System :=
  Transition.exec step test (start 4000) as

theorem Reachable.of_run {P : System → Action → Prop} {test : System → Action → Bool}
    (htest : ∀ s a, test s a → P s a) {as : List Action} {s : System} (h : run test as = some s) :
    Reachable P s :=
  .exec htest (.init ⟨4000, by decide, by decide, rfl⟩) h

/-- What is computed from the last state of a run and the state behind one more step. -/
theorem exists_of_run {α : Type} (test : System → Action → Bool) (as : List Action) (a : Action)
    {f : System → System → α} {x : α}
    (h : ((run test as).bind fun s => (step s a).map (f s)) = some x) :
    ∃ s s', run test as = some s ∧ step s a = some s' ∧ f s s' = x :=
  Transition.exists_of_exec h

/-- Any step may be taken. -/
def anyStep (_ : System) (_ : Action) : Bool := true

/-! ## Pieces of runs -/

namespace Run

def peer : Peer := (.dotted 10 0 0 1, 5000)

/-- The bytes of a frame about `peer`. -/
def frame (kind : RelayMessageTypes) (data : Bytes) : Bytes :=
  encode (Manager.frameOf ⟨kind, peer.1, peer.2, data, 4000⟩)

/-- The relay begins to listen. -/
def listen : List Action := [.relay (.listen (.ok ()))]

/-- The relay accepts a connection from `addr`. -/
def accept (addr : Peer) : List Action :=
  [.relay (.select [(.listening, .r)]), .relay (.accept (.ok addr)), .relay .turn, .relay .turn]

/-- The relay's socket `n` receives `data`. -/
def relayReads (n : Nat) (data : Bytes) : List Action :=
  [.relay (.select [(.conn n, .r)]),
    .relay (.io { getpeername := .ok (), send := .ok 0, recv := .ok data }), .relay .turn,
    .relay .turn]

/-- The relay's socket `n` sends `len` bytes. -/
def relayWrites (n len : Nat) : List Action :=
  [.relay (.select [(.conn n, ⟨false, true⟩)]),
    .relay (.io { getpeername := .ok (), send := .ok len, recv := .ok [] }), .relay .turn,
    .relay .turn]

/-- The relay wakes up and comes to the drain of its queue. -/
def relayWakes : List Action :=
  [.relay (.select [(.wakeup, .r)]), .relay (.wakeupRead false), .relay .turn]

/-- The relay takes `items` messages of the client. -/
def relayDrains (items : Nat) : List Action :=
  relayWakes ++ List.replicate (items + 1) (.relay .turn)

/-- The management thread makes frames of `items` messages and sends `len` bytes. -/
def mgrSends (items len : Nat) : List Action :=
  [.mgr (.select [(.wakeup, .r)]), .mgr (.wakeupRead false), .mgr .turn, .mgr (.recvTurn [])] ++
    List.replicate (items + 1) (.mgr .turn) ++
    [.mgr (.select [(.client, ⟨false, true⟩)]),
      .mgr (.clientIo { send := .ok len, recv := .ok [] }), .mgr .turn, .mgr (.recvTurn []),
      .mgr .turn]

/-- The management thread receives `data`, which holds `frames` frames. -/
def mgrReceives (data : Bytes) (frames : Nat) : List Action :=
  [.mgr (.select [(.client, .r)]), .mgr (.clientIo { send := .ok 0, recv := .ok data }),
    .mgr .turn] ++ List.replicate (frames + 1) (.mgr (.recvTurn [])) ++ [.mgr .turn]

/-- The client's management thread receives `data`, which holds `frames` frames. -/
def remoteReceives (data : Bytes) (frames : Nat) : List Action :=
  [.remote (.select [(.client, .r)]), .remote (.relayIo { send := .ok 0, recv := .ok data })] ++
    List.replicate (frames + 3) (.remote .turn)

/-- The client's management thread makes frames of `items` messages and sends `len` bytes. -/
def remoteSends (items len : Nat) : List Action :=
  [.remote (.select [(.wakeup, .r)]), .remote .wakeupRead] ++
    List.replicate (items + 3) (.remote .turn) ++
    [.remote (.select [(.client, ⟨false, true⟩)]),
      .remote (.relayIo { send := .ok len, recv := .ok [] }), .remote .turn, .remote .turn,
      .remote .turn]

/-- The local proxy handles the messages about these connections, on the results of their socket
calls, and then the events. -/
def proxyHandles (items : List (Nat × LocalProxy.ConnectIO))
    (events : List (LocalKey × Mask)) (ios : List LocalProxy.ConnIO) : List Action :=
  [.proxy .turn] ++ items.map (fun (n, io) => .proxy (.item n io)) ++
    [.proxy .turn, .proxy (.select events)] ++ ios.map (fun io => .proxy (.io io)) ++ [.proxy .turn]

end Run

end System

end PortPort
