import PortPort.Lib.Channel
import PortPort.System.EventThreads

/-! # The management connection as two channels

In each direction the management connection carries the items of a queue of one program to a queue
of the other: they are framed, sent, received and taken off the stream again. -/

namespace PortPort
open PortPortMessage
open Server (ManagerAction)
open Client (RemoteAction)

/-! ## The code -/

def frameBytes (q : QueuedRelayMessage) : Bytes := encode (Manager.frameOf q)

theorem ItemOk.grabMsg {p : Int} {q : QueuedRelayMessage} (h : ItemOk p q)
    (hp : 0 ≤ p ∧ p < 65536) {b rest : Bytes} :
    grabMsg b = .ok (Manager.frameOf q, rest) ↔ b = frameBytes q ++ rest := by
  have hframe := h.wellFormed hp
  constructor
  · intro hg
    obtain ⟨-, -, enc, henc, rfl⟩ := (deserialize_iff hframe.notAuth).mp hg
    cases henc.symm.trans hframe.serialize
    rfl
  · rintro rfl
    exact grabMsg?_eq_some.mp (grabMsg?_encode rest hframe)

theorem itemCode {p : Int} (hp : 0 ≤ p ∧ p < 65536) : Chan.Code (ItemOk p) frameBytes where
  ne q hq hnil := by
    have hg := (hq.grabMsg hp).mpr (List.append_nil _).symm
    rw [hnil] at hg
    cases hg
  cancel q q' a b hq hq' heq := by
    have hg : grabMsg (frameBytes q ++ a) = _ := (hq.grabMsg hp).mpr rfl
    rw [heq, (hq'.grabMsg hp).mpr rfl] at hg
    obtain ⟨hframe, rfl⟩ := Prod.mk.inj (Except.ok.inj hg)
    have hitem := hq'.itemOf_frameOf
    rw [hframe, hq.itemOf_frameOf] at hitem
    exact ⟨Option.some.inj hitem, rfl⟩

/-! ## The two directions -/

namespace System

/-- From `inbound_data` to `from_remote_proxy`. -/
def downChan (s : System) : Chan QueuedRelayMessage UInt8 where
  queue := s.server.mgr.inboundData
  out := s.server.mgr.sendq
  wire := s.down
  inp := s.client.remote.recvq

/-- From `to_remote_proxy` to the relay's `outbound`. -/
def upChan (s : System) : Chan QueuedRelayMessage UInt8 where
  queue := s.client.remote.toRemoteProxy
  out := s.client.remote.sendq
  wire := s.up
  inp := s.server.mgr.recvq

/-- What is new at the end of a queue. -/
def added (q q' : List QueuedRelayMessage) : List QueuedRelayMessage := q'.drop q.length

theorem added_self (q : List QueuedRelayMessage) : added q q = [] := List.drop_length

theorem added_append (q q' : List QueuedRelayMessage) : added q (q ++ q') = q' := List.drop_left

/-- The items that a step puts on the queue at this end and those it puts on that at the other. -/
def downPut (s : System) (a : Action) (s' : System) : List QueuedRelayMessage :=
  match a with
  | .relay _ => added s.server.mgr.inboundData s'.server.mgr.inboundData
  | _ => []

def downHand (s : System) (a : Action) (s' : System) : List QueuedRelayMessage :=
  match a with
  | .remote _ => added s.proxy.toLocal s'.proxy.toLocal
  | _ => []

def upPut (s : System) (a : Action) (s' : System) : List QueuedRelayMessage :=
  match a with
  | .proxy _ => added s.client.remote.toRemoteProxy s'.client.remote.toRemoteProxy
  | _ => []

def upHand (s : System) (a : Action) (s' : System) : List QueuedRelayMessage :=
  match a with
  | .mgr _ => added s.relay.outbound s'.relay.outbound
  | _ => []

variable {s s' : System}

/-- A step of a channel of the items of a relay at `p`. -/
abbrev ItemMoves (p : Int) := Chan.Moves (ItemOk p) frameBytes

/-- What a step does to the two channels of a relay at `p`. -/
structure Channels (p : Int) (s : System) (a : Action) (s' : System) : Prop where
  down : ItemMoves p s.downChan (s.downPut a s') (s.downHand a s') s'.downChan
  up : ItemMoves p s.upChan (s.upPut a s') (s.upHand a s') s'.upChan

theorem ItemMoves.of_eq {p : Int} {c c' : Chan QueuedRelayMessage UInt8}
    {put hand put' hand' : List QueuedRelayMessage} (h : ItemMoves p c put' hand' c')
    (hput : put = put') (hhand : hand = hand') : ItemMoves p c put hand c' := by
  rw [hput, hhand]
  exact h

section
variable {p : Int} {t t' : Tunnel.State Peer UInt8} {server : Server}

/-- The management thread takes an item off the connection. -/
theorem recvTurn_channels {results : List Relay.BindResult}
    (hm : Models (fun _ _ => True) False p s t) (hs : s.server.recvTurn results = some server) :
    Channels p s (.mgr (.recvTurn results)) { s with server } := by
  rcases hm.peaceful.recvTurn hs with ⟨rfl, -⟩ | ⟨msg, recvq, rid, q, hg, hl, hitem, rfl⟩
  · exact ⟨.idle, .of_eq .idle rfl (added_self _)⟩
  · obtain ⟨q', hq', -, rfl, hl'⟩ := hm.serverTakes hg
    cases hl.symm.trans hl'
    cases hitem.symm.trans hq'.itemOf_frameOf
    have hrecvq := (hq'.grabMsg ⟨Int.le_of_lt hm.port.1, hm.port.2⟩).mp hg
    refine ⟨.idle, .of_eq (.takes hq' hrecvq) rfl ?_⟩
    simp [upHand, relay, Relay.enqueueOutbound, Relay.wakeup, added_append]

theorem mgrStep_channels {a : ManagerAction} (hup : s.Up)
    (hm : Models (fun _ _ => True) False p s t) (hs : s.mgrStep a = some s') :
    Channels p s (.mgr a) s' := by
  have hsteady := hm.peaceful.steady
  have hloop := hup.manager
  obtain ⟨srv, hsrv, ⟨io, rfl, ⟨rest, hwire⟩, rfl⟩ | ⟨hio, rfl⟩⟩ := mgrStep_cases hs
  · cases Server.mgrStep_moves hsrv with
    | @clientIo mask events _ hp =>
      have hmoved := s.server.mgr.handleRelayClient_moved mask io
      have hreceived := append_receivedBy hmoved.recvq
      have hsent := sentBy_append hmoved.sendq
      have hinbound := hmoved.inboundData
      simp only [Server.withMgr] at hwire ⊢
      generalize (s.server.mgr.handleRelayClient mask io).state = m at *
      generalize receivedBy s.server.mgr.recvq m.recvq = received at *
      refine ⟨?_, .of_eq ?_ rfl (added_self _)⟩
      · simp only [downChan, downPut, downHand, hinbound]
        exact .sends hsent.symm
      · simp only [upChan, ← hreceived, ← hwire, List.drop_left]
        exact .receives rfl
  · cases Server.mgrStep_moves hsrv with
    | clientIo => exact absurd rfl (hio _)
    | emptied | takes | refuses => exact recvTurn_channels hm (Server.mgrStep_recvTurn hsrv).2.2
    | announces hp | destroys hp =>
      rw [hp] at hsteady
      cases hsteady
    | @drains left hp =>
      have hdrains := s.server.mgr.inboundTurn_drains left
      generalize s.server.mgr.inboundTurn left = m at hdrains
      cases hdrains with
      | ends => exact ⟨.idle, .of_eq .idle rfl (added_self _)⟩
      | @sends q items m hl hi hsend =>
        obtain ⟨m, hsent, hsendq, hrecvq, -, hinbound, -⟩ := Manager.send_wellFormed
          (m := { s.server.mgr with inboundData := items })
          (hm.peaceful.items q (hi ▸ List.mem_cons_self))
        cases hsend.symm.trans hsent
        refine ⟨?_, .of_eq ?_ rfl (added_self _)⟩
        · simp only [downChan, downPut, downHand, Server.withMgr, hsendq, hinbound]
          exact .frames hi
        · simp only [upChan, Server.withMgr, hrecvq]
          exact .idle
      | fails hi hsend =>
        obtain ⟨m, hsent, -⟩ :=
          Manager.send_wellFormed (hm.peaceful.items _ (hi ▸ List.mem_cons_self))
        cases hsent.symm.trans hsend
    | closes hp | ends hp =>
      rw [hp] at hloop
      cases hloop
    | _ => exact ⟨.idle, .of_eq .idle rfl (added_self _)⟩

theorem remoteStep_channels {a : RemoteAction} (hup : s.Up)
    (hm : Models (fun _ _ => True) False p s t) (ht : s.Tidy) (hs : s.remoteStep a = some s') :
    Channels p s (.remote a) s' := by
  have hp : 0 ≤ p ∧ p < 65536 := ⟨Int.le_of_lt hm.port.1, hm.port.2⟩
  have hloop := hup.remote
  obtain ⟨c, hc, ⟨io, rfl, ⟨rest, hwire⟩, rfl⟩ | ⟨hio, rfl⟩⟩ := remoteStep_cases hs
  · cases Client.remoteStep_moves hc with
    | @relayIo mask _ events _ _ =>
      have hmoved := s.client.remote.handleRelay_moved mask io
      have hreceived := append_receivedBy hmoved.recvq
      have hsent := sentBy_append hmoved.sendq
      have hto := hmoved.toRemoteProxy
      simp only at hwire ⊢
      generalize (s.client.remote.handleRelay mask io).state = r at *
      generalize receivedBy s.client.remote.recvq r.recvq = received at *
      refine ⟨.of_eq ?_ rfl (added_self _), ?_⟩
      · simp only [downChan, ← hreceived, ← hwire, List.drop_left]
        exact .receives rfl
      · simp only [upChan, upPut, upHand, hto]
        exact .sends hsent.symm
  · cases Client.remoteStep_moves hc with
    | relayIo => exact absurd rfl (hio _)
    | @takes msg recvq _ hg =>
      obtain ⟨ds, hds⟩ := ht.down
      rw [hm.port_eq] at hds
      obtain ⟨q, qs, rfl, rfl, -⟩ := hds.takes hp hg
      have hq := hds.items q List.mem_cons_self
      have hrecvq := (hq.grabMsg hp).mp hg
      simp only [Client.processMsg, hq.itemOf_frameOf]
      exact ⟨.of_eq (.takes hq hrecvq) rfl (added_append ..), .idle⟩
    | @batch left hph =>
      obtain ⟨fd, qs, -, -, -, hU⟩ := hm.refines
      have hq : ∀ q ∈ s.client.remote.toRemoteProxy, ItemOk p q ∧ q.kind ≠ .newConnection :=
        fun q hmem => hU.items q (by simp [upItems, hmem])
      have hbatches := RemoteProxy.batchTurn_batches hp hq hup.registered left
      generalize s.client.remote.batchTurn left = r at hbatches
      cases hbatches with
      | ends => exact ⟨.of_eq .idle rfl (added_self _), .idle⟩
      | sends hl hto => exact ⟨.of_eq .idle rfl (added_self _), .frames hto⟩
    | joined hph =>
      rw [hph] at hloop
      cases hloop
    | _ => exact ⟨.of_eq .idle rfl (added_self _), .idle⟩

theorem step_channels {a : Action} (hup : s.Up) (hm : Models (fun _ _ => True) False p s t)
    (hm' : Models (fun _ _ => True) False p s' t') (ht : s.Tidy) (hs : step s a = some s') :
    Channels p s a s' := by
  cases a with
  | mgr a => exact mgrStep_channels hup hm hs
  | relay a =>
    obtain ⟨r, puts, -, rfl⟩ := relayStep_cases hs
    have hok := hm'.itemOk
    refine ⟨.of_eq (.puts fun q hq => ?_) (added_append ..) rfl, .idle⟩
    exact hok q (List.mem_append_right _ hq)
  | remote a => exact remoteStep_channels hup hm ht hs
  | proxy a =>
    obtain ⟨-, l, puts, -, rfl⟩ := proxyStep_cases hs
    obtain ⟨fd, qs, -, -, -, hU⟩ := hm'.refines
    refine ⟨.idle, .of_eq (.puts fun q hq => (hU.items q ?_).1) (added_append ..) rfl⟩
    exact List.mem_append_right _ (List.mem_append_right _ hq)
  | serverShutdown | clientShutdown =>
    cases hs
    exact ⟨.idle, .idle⟩

end

end System
end PortPort
