import PortPort.Lib.EventLoop
import PortPort.System.SessionEnds

/-! # The two loops of a session

In a session both management threads run event loops: whatever they receive, they come back to
`select`, to their receive loop and to the drain of their queue again and again. -/

namespace PortPort
open PortPortMessage EventLoop
open Server (ManagerAction)
open Client (RemoteAction)

namespace Manager

/-- Where the thread of `relayMgmt` stands in its loop. -/
def place (m : Manager) : Place (ManagerKey × Mask) :=
  match m.phase with
  | .dispatch events => .dispatch events
  | .recvLoop => .recv
  | .inboundLoop _ => .drain
  | _ => .top

def left (m : Manager) : ℕ :=
  match m.phase with
  | .recvLoop => m.recvq.length
  | .inboundLoop left => left
  | _ => 0

theorem place_congr {m m' : Manager} (hp : m'.phase = m.phase) (hr : m'.recvq = m.recvq) :
    m'.place = m.place ∧ m'.left = m.left := by
  simp [place, left, hp, hr]

end Manager

namespace RemoteProxy

/-- Where the thread of `create_remote_proxy` stands in its loop. -/
def place (c : RemoteProxy) : Place (RemoteKey × Mask) :=
  match c.phase with
  | .dispatch events => .dispatch events
  | .recvLoop => .recv
  | .batch _ => .drain
  | _ => .top

def left (c : RemoteProxy) : ℕ :=
  match c.phase with
  | .recvLoop => c.recvq.length
  | .batch left => left
  | _ => 0

theorem place_congr {c c' : RemoteProxy} (hp : c'.phase = c.phase) (hr : c'.recvq = c.recvq) :
    c'.place = c.place ∧ c'.left = c.left := by
  simp [place, left, hp, hr]

end RemoteProxy

/-! ## The management thread -/

theorem Server.mgrStep_next {s s' : Server} {a : ManagerAction} (h : s.Peaceful)
    (hservice : s.closeService = false) (hthread : s.mgr.closeThread = false)
    (hloop : s.mgr.phase.inLoop = true) (hloop' : s'.mgr.phase.inLoop = true)
    (hs : s.mgrStep a = some s') :
    Next s.mgr.place s.mgr.left s'.mgr.place s'.mgr.left := by
  have hrecv {results : List Relay.BindResult} (hp : s.mgr.phase = .recvLoop)
      (hs : s.recvTurn results = some s') :
      Next s.mgr.place s.mgr.left s'.mgr.place s'.mgr.left := by
    rcases h.recvTurn hs with ⟨rfl, -⟩ | ⟨msg, recvq, rid, q, hg, -, -, rfl⟩
    · simp only [Manager.place, Manager.left, hp]
      exact .begins (show 0 < INBOUND_BATCH from Nat.succ_pos _)
    · have hlt := deserialize_shrinks hg
      simp only [Manager.place, Manager.left, hp]
      exact .receives (show recvq.length < _ by omega)
  have hsteady := h.steady
  cases mgrStep_moves hs with
  | leaves _ hc => simp [hservice, hthread] at hc
  | selects hp =>
    simp only [Manager.place, hp]
    exact .selects _
  | @clientIo mask events io hp =>
    simp only [withMgr_mgr] at hloop'
    simp only [Manager.place, hp, withMgr_mgr]
    cases hraised : (s.mgr.handleRelayClient mask io).raised with
    | none => exact .calls
    | some e =>
      rw [hraised] at hloop'
      cases hloop'
  | wakeupRead hp =>
    simp only [Manager.place, hp]
    exact .calls
  | dispatched hp =>
    simp only [Manager.place, hp]
    exact .dispatched
  | emptied hp | takes hp | refuses hp => exact hrecv hp (mgrStep_recvTurn hs).2.2
  | announces hp | destroys hp =>
    rw [hp] at hsteady
    cases hsteady
  | @drains left hp =>
    have hdrains := s.mgr.inboundTurn_drains left
    simp only [Manager.place, Manager.left, hp, withMgr_mgr]
    generalize s.mgr.inboundTurn left = m at hdrains
    cases hdrains with
    | ends | fails => exact .ends
    | sends hl => exact .drains (Nat.sub_lt hl Nat.one_pos)
  | closes hp | ends hp =>
    rw [hp] at hloop
    cases hloop

/-! ## The remote proxy thread -/

/-- A turn of the drain of `to_remote_proxy` ends it, or sends the frame of the next item. -/
inductive RemoteProxy.Batches (c : RemoteProxy) (left : ℕ) : RemoteProxy → Prop
  | ends (h : left = 0 ∨ c.toRemoteProxy = []) : Batches c left { c with phase := .top }
  | sends (hl : 0 < left) (hq : c.toRemoteProxy = q :: rest) (writeEnabled : Bool)
      (mask : Option Mask) : Batches c left { c with
        toRemoteProxy := rest, sendq := c.sendq ++ encode (Manager.frameOf q), writeEnabled, mask
        phase := .batch (left - 1) }

theorem RemoteProxy.batchTurn_batches {c : RemoteProxy} {p : Int} (hp : 0 ≤ p ∧ p < 65536)
    (hq : ∀ q ∈ c.toRemoteProxy, ItemOk p q ∧ q.kind ≠ .newConnection)
    (hmask : c.mask.isSome = true) (left : ℕ) : c.Batches left (c.batchTurn left) := by
  unfold RemoteProxy.batchTurn
  split
  · exact .ends (.inl ‹_›)
  rename_i hl
  split
  · exact .ends (.inr ‹_›)
  · rename_i q rest hto
    obtain ⟨hitem, hkind⟩ := hq q (hto ▸ List.mem_cons_self)
    obtain ⟨hraised, -⟩ := RemoteProxy.enqueueSendq_registered
      (c := { c with toRemoteProxy := rest }) hmask (encode (Manager.frameOf q))
    simp only [RemoteProxy.frameOf_eq hkind, (hitem.wellFormed hp).serialize, hraised]
    obtain ⟨writeEnabled, mask, heq⟩ : ∃ writeEnabled mask,
        (RemoteProxy.enqueueSendq { c with toRemoteProxy := rest }
          (encode (Manager.frameOf q))).state = { c with
            toRemoteProxy := rest, sendq := c.sendq ++ encode (Manager.frameOf q)
            writeEnabled, mask } := by
      unfold RemoteProxy.enqueueSendq
      simp only
      split
      · split
        · exact ⟨_, _, rfl⟩
        · exact ⟨_, _, rfl⟩
      · exact ⟨_, _, rfl⟩
    rw [heq]
    exact .sends (Nat.pos_of_ne_zero hl) hto _ _

theorem Client.remoteStep_next {c c' : Client} {a : RemoteAction} {p : Int}
    (hp : 0 ≤ p ∧ p < 65536)
    (hq : ∀ q ∈ c.remote.toRemoteProxy, ItemOk p q ∧ q.kind ≠ .newConnection)
    (hmask : c.remote.mask.isSome = true) (hclose : c.close = false)
    (hloop : c.remote.phase.inLoop = true) (hloop' : c'.remote.phase.inLoop = true)
    (hs : c.remoteStep a = some c') :
    Next c.remote.place c.remote.left c'.remote.place c'.remote.left := by
  cases remoteStep_moves hs with
  | leaves _ hc => cases hclose.symm.trans hc
  | selects hph =>
    simp only [RemoteProxy.place, hph, goto]
    exact .selects _
  | @relayIo mask events io hph =>
    simp only at hloop'
    simp only [RemoteProxy.place, hph]
    cases hraised : (c.remote.handleRelay mask io).raised with
    | none => exact .calls
    | some e =>
      rw [hraised] at hloop'
      cases hloop'
  | wakeupRead hph =>
    simp only [RemoteProxy.place, hph]
    exact .calls
  | dispatched hph =>
    simp only [RemoteProxy.place, hph, goto]
    exact .dispatched
  | breaks hph =>
    simp only [RemoteProxy.place, RemoteProxy.left, hph, goto]
    exact .begins (show 0 < RemoteProxy.BOUNDED_BATCH from Nat.succ_pos _)
  | takes hph hg =>
    have hlt := deserialize_shrinks hg
    rw [processMsg_remote]
    simp only [RemoteProxy.place, RemoteProxy.left, hph]
    exact .receives (by omega)
  | @batch left hph =>
    have hbatches := RemoteProxy.batchTurn_batches hp hq hmask left
    simp only [RemoteProxy.place, RemoteProxy.left, hph]
    generalize c.remote.batchTurn left = c' at hbatches
    cases hbatches with
    | ends => exact .ends
    | sends hl => exact .drains (Nat.sub_lt hl Nat.one_pos)
  | joined hph =>
    rw [hph] at hloop
    cases hloop

/-! ## In a session -/

theorem Manager.handleRelayClient_blocked (m : Manager) (mask : Mask) :
    (m.handleRelayClient mask ⟨.error .blockingIo, .error .blockingIo⟩).state.recvq = m.recvq := by
  have hread (m : Manager) : (m.handleRead (.error .blockingIo)).state = m := rfl
  unfold Manager.handleRelayClient
  by_cases hw : (mask.write && m.sendq ≠ []) = true
  · simp only [if_pos hw]
    split
    · rw [hread, Manager.handleWrite_recvq]
    · exact Manager.handleWrite_recvq _
  · simp only [if_neg hw]
    split
    · rw [hread]
    · rfl

theorem RemoteProxy.handleRelay_blocked (c : RemoteProxy) (mask : Mask) :
    (c.handleRelay mask ⟨.error .blockingIo, .error .blockingIo⟩).state.recvq = c.recvq := by
  have hread (c : RemoteProxy) : (c.handleRead (.error .blockingIo)).state = c := rfl
  have hwrite : (c.handleWrite (.error .blockingIo)).state = c := rfl
  unfold RemoteProxy.handleRelay
  by_cases hw : (mask.write && c.sendq ≠ []) = true
  · simp only [if_pos hw]
    split
    · rw [hread, hwrite]
    · rw [hwrite]
  · simp only [if_neg hw]
    split
    · rw [hread]
    · rfl

namespace System

/-- The states of a session that nothing disturbs. -/
abbrev Session : System → Prop := Reachable fun s a => s.undisturbed a

variable {s s' : System}

theorem mgr_enabled (h : s.Session) : ∃ a t, s.mgrStep a = some t := by
  obtain ⟨p, t, hm⟩ := Reachable.models_any h
  have hup := Reachable.up h
  have hsteady := hm.peaceful.steady
  have hloop := hup.manager
  have hserver {a : ManagerAction} (hio : ∀ io, a ≠ .clientIo io)
      (hs : (s.server.mgrStep a).isSome) : ∃ a t, s.mgrStep a = some t := by
    obtain ⟨server, hs⟩ := Option.isSome_iff_exists.mp hs
    exact ⟨a, _, mgrStep_of_server hio hs⟩
  cases hp : s.server.mgr.phase with
  | top =>
    refine hserver (a := .select []) (by simp) ?_
    simp [Server.mgrStep, hp, hup.closeService, hup.closeThread, Manager.selectable]
  | dispatch events =>
    cases events with
    | nil => exact hserver (a := .turn) (by simp) (by simp [Server.mgrStep, hp])
    | cons event events =>
      obtain ⟨key, mask⟩ := event
      cases key with
      | wakeup => exact hserver (a := .wakeupRead false) (by simp) (by simp [Server.mgrStep, hp])
      | client =>
        have hrecvq := s.server.mgr.handleRelayClient_blocked mask
        refine ⟨.clientIo ⟨.error .blockingIo, .error .blockingIo⟩, ?_⟩
        simp [mgrStep, Server.mgrStep, hp, sendAllowed, recvAllowed, receivedBy, hrecvq]
  | recvLoop =>
    obtain ⟨results, server, hr, hturn⟩ := s.server.recvTurn_possible
    exact hserver (a := .recvTurn results) (by simp) (by simp [Server.mgrStep, hp, hr, hturn])
  | inboundLoop left => exact hserver (a := .turn) (by simp) (by simp [Server.mgrStep, hp])
  | creating | joining =>
    rw [hp] at hsteady
    cases hsteady
  | closing | closed | crashed =>
    rw [hp] at hloop
    cases hloop

theorem remote_enabled (h : s.Session) : ∃ a t, s.remoteStep a = some t := by
  have hup := Reachable.up h
  have hloop := hup.remote
  have hclient {a : RemoteAction} (hio : ∀ io, a ≠ .relayIo io)
      (hs : (s.client.remoteStep a).isSome) : ∃ a t, s.remoteStep a = some t := by
    obtain ⟨client, hs⟩ := Option.isSome_iff_exists.mp hs
    exact ⟨a, _, remoteStep_of_client hio hs⟩
  cases hp : s.client.remote.phase with
  | top =>
    refine hclient (a := .select []) (by simp) ?_
    simp [Client.remoteStep, hp, hup.close, RemoteProxy.selectable]
  | dispatch events =>
    cases events with
    | nil => exact hclient (a := .turn) (by simp) (by simp [Client.remoteStep, hp])
    | cons event events =>
      obtain ⟨key, mask⟩ := event
      cases key with
      | wakeup => exact hclient (a := .wakeupRead) (by simp) (by simp [Client.remoteStep, hp])
      | client =>
        have hrecvq := s.client.remote.handleRelay_blocked mask
        refine ⟨.relayIo ⟨.error .blockingIo, .error .blockingIo⟩, ?_⟩
        simp [remoteStep, Client.remoteStep, hp, sendAllowed, recvAllowed, receivedBy, hrecvq]
  | recvLoop => exact hclient (a := .turn) (by simp) (by simp [Client.remoteStep, hp])
  | batch left => exact hclient (a := .turn) (by simp) (by simp [Client.remoteStep, hp])
  | joining | done | crashed =>
    rw [hp] at hloop
    cases hloop

/-- Whose step an action is. -/
def Action.OfManager (a : Action) : Prop := ∃ b, a = .mgr b
def Action.OfRemote (a : Action) : Prop := ∃ b, a = .remote b

theorem other_manager {a : Action} (ha : ¬ a.OfManager) (h : step s a = some s') :
    s'.server.mgr.phase = s.server.mgr.phase ∧ s'.server.mgr.recvq = s.server.mgr.recvq := by
  cases a with
  | mgr b => exact absurd ⟨b, rfl⟩ ha
  | relay a =>
    obtain ⟨r, puts, -, rfl⟩ := relayStep_cases h
    exact ⟨rfl, rfl⟩
  | remote a => rw [remoteStep_server h]; exact ⟨rfl, rfl⟩
  | proxy a =>
    obtain ⟨-, l, puts, -, rfl⟩ := proxyStep_cases h
    exact ⟨rfl, rfl⟩
  | serverShutdown | clientShutdown =>
    cases h
    exact ⟨rfl, rfl⟩

theorem other_remote {a : Action} (ha : ¬ a.OfRemote) (h : step s a = some s') :
    s'.client.remote.phase = s.client.remote.phase ∧
      s'.client.remote.recvq = s.client.remote.recvq := by
  cases a with
  | mgr b => rw [mgrStep_client h]; exact ⟨rfl, rfl⟩
  | relay a =>
    obtain ⟨r, puts, -, rfl⟩ := relayStep_cases h
    exact ⟨rfl, rfl⟩
  | remote b => exact absurd ⟨b, rfl⟩ ha
  | proxy a =>
    obtain ⟨-, l, puts, -, rfl⟩ := proxyStep_cases h
    exact ⟨rfl, rfl⟩
  | serverShutdown | clientShutdown =>
    cases h
    exact ⟨rfl, rfl⟩

/-- The loop of `relayMgmt`. -/
def managerLoop :
    Thread (Transition.Fires step) Action.OfManager Session (ManagerKey × Mask) where
  place s := s.server.mgr.place
  left s := s.server.mgr.left
  enabled s h := by
    obtain ⟨a, t, ht⟩ := mgr_enabled h
    exact ⟨.mgr a, t, ⟨a, rfl⟩, ht⟩
  others s a t _ hs ha := by
    obtain ⟨hp, hr⟩ := other_manager ha hs
    exact Manager.place_congr hp hr
  next s a t h h' hs ha := by
    obtain ⟨b, rfl⟩ := ha
    obtain ⟨p, u, hm⟩ := Reachable.models_any h
    have hup := Reachable.up h
    exact Server.mgrStep_next hm.peaceful hup.closeService hup.closeThread hup.manager
      (Reachable.up h').manager (mgrStep_server hs)

/-- The loop of `create_remote_proxy`. -/
def remoteLoop :
    Thread (Transition.Fires step) Action.OfRemote Session (RemoteKey × Mask) where
  place s := s.client.remote.place
  left s := s.client.remote.left
  enabled s h := by
    obtain ⟨a, t, ht⟩ := remote_enabled h
    exact ⟨.remote a, t, ⟨a, rfl⟩, ht⟩
  others s a t _ hs ha := by
    obtain ⟨hp, hr⟩ := other_remote ha hs
    exact RemoteProxy.place_congr hp hr
  next s a t h h' hs ha := by
    obtain ⟨b, rfl⟩ := ha
    obtain ⟨p, u, hm⟩ := Reachable.models_any h
    obtain ⟨fd, qs, -, -, -, hU⟩ := hm.refines
    have hup := Reachable.up h
    have hq : ∀ q ∈ s.client.remote.toRemoteProxy, ItemOk p q ∧ q.kind ≠ .newConnection :=
      fun q hmem => hU.items q (by simp [upItems, hmem])
    exact Client.remoteStep_next ⟨Int.le_of_lt hm.port.1, hm.port.2⟩ hq hup.registered hup.close
      hup.remote (Reachable.up h').remote (remoteStep_client hs)

end System
end PortPort
