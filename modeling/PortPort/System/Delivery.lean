import PortPort.System.Announcement
import PortPort.System.Channels
import PortPort.System.TlsBuffers

/-! # The management connection delivers

Nothing is lost, added or put out of order on the management connection, and where the threads at
both ends run and the connection moves bytes, every item arrives. -/

namespace PortPort
open PortPortMessage EventLoop Transition Filter
open Server (ManagerAction)
open Client (RemoteAction)

namespace System

/-! ## What a thread moves where it stands -/

/-- A call of `send` on the management connection that has sent bytes. -/
def Action.sends : Action → Prop
  | .mgr (.clientIo io) => ∃ n > 0, io.send = .ok n
  | .remote (.relayIo io) => ∃ n > 0, io.send = .ok n
  | _ => False

/-- A call of `recv` on the management connection that has received bytes. -/
def Action.receives : Action → Prop
  | .mgr (.clientIo io) => ∃ data ≠ [], io.recv = .ok data
  | .remote (.relayIo io) => ∃ data ≠ [], io.recv = .ok data
  | _ => False

end System

namespace Manager
variable {m : Manager} {mask : Mask} {io : ClientIO}

theorem handleRelayClient_sends {n : Nat} (hw : mask.write = true) (hq : m.sendq ≠ [])
    (hs : io.send = .ok n) : (m.handleRelayClient mask io).state.sendq = m.sendq.drop n := by
  have hwrite : (m.handleWrite (.ok n)).state.sendq = m.sendq.drop n := by
    unfold handleWrite
    simp only
    split
    · rfl
    · rfl
  unfold handleRelayClient
  simp only [hw, hq, hs, ne_eq, not_false_eq_true, decide_true, Bool.and_self, if_true]
  split
  · rw [handleRead_sendq, hwrite]
  · exact hwrite

theorem callsRecv_of_harmless (hr : mask.read = true)
    (h : harmless mask m.sendq io.send io.recv = true) : m.callsRecv mask io = true := by
  simp only [harmless, Bool.and_eq_true] at h
  simp only [callsRecv, hr, Bool.true_and, Bool.not_eq_true']
  rw [Bool.and_eq_false_imp]
  intro hw
  rw [hw, Bool.not_true, Bool.false_or] at h
  rw [Option.isSome_eq_false_iff, Option.isNone_iff_eq_none, handleWrite_raised_iff]
  intro e he
  have hsend := h.1
  rw [he] at hsend
  cases e with
  | blockingIo | sslWantRead | sslWantWrite => rfl
  | _ => cases hsend

end Manager

namespace RemoteProxy
variable {c : RemoteProxy} {mask : Mask} {io : RelayIO}

theorem handleRelay_sends {n : Nat} (hw : mask.write = true) (hq : c.sendq ≠ [])
    (hs : io.send = .ok n) : (c.handleRelay mask io).state.sendq = c.sendq.drop n := by
  have hwrite : (c.handleWrite (.ok n)).state.sendq = c.sendq.drop n := rfl
  unfold handleRelay
  simp only [hw, hq, hs, ne_eq, not_false_eq_true, decide_true, Bool.and_self, if_true]
  split
  · rw [(handleRead_sendq _).1, hwrite]
  · exact hwrite

theorem callsRecv_of_harmless (hr : mask.read = true)
    (h : harmless mask c.sendq io.send io.recv = true) : c.callsRecv mask io = true := by
  simp only [harmless, Bool.and_eq_true] at h
  simp only [callsRecv, hr, Bool.true_and, Bool.not_eq_true']
  rw [Bool.and_eq_false_imp]
  intro hw
  rw [hw, Bool.not_true, Bool.false_or] at h
  obtain ⟨hreturned, hraised⟩ :=
    (handleWrite_reads io.send).mpr ((handleWrite_goesOn (c := c) io.send).mpr h.1)
  simp [hreturned, hraised]

end RemoteProxy

/-- An event of this kind on the socket `k`. -/
def wants {κ : Type} (k : κ) (kind : Mask → Bool) (e : κ × Mask) : Prop :=
  e.1 = k ∧ kind e.2 = true

theorem Manager.place_calls {m : Manager} {kind : Mask → Bool}
    (h : Thread.Calls (wants .client kind) m.place) :
    ∃ mask events, m.phase = .dispatch ((.client, mask) :: events) ∧ kind mask = true := by
  obtain ⟨⟨key, mask⟩, events, hp, rfl, hkind⟩ := h
  refine ⟨mask, events, ?_, hkind⟩
  unfold place at hp
  split at hp
  · rename_i hphase
    cases hp
    exact hphase
  all_goals cases hp

theorem RemoteProxy.place_calls {c : RemoteProxy} {kind : Mask → Bool}
    (h : Thread.Calls (wants .client kind) c.place) :
    ∃ mask events, c.phase = .dispatch ((.client, mask) :: events) ∧ kind mask = true := by
  obtain ⟨⟨key, mask⟩, events, hp, rfl, hkind⟩ := h
  refine ⟨mask, events, ?_, hkind⟩
  unfold place at hp
  split at hp
  · rename_i hphase
    cases hp
    exact hphase
  all_goals cases hp

theorem Manager.at_recv {m : Manager} (h : m.place.index m.left = 2) : m.phase = .recvLoop := by
  unfold place left at h
  cases hp : m.phase with
  | recvLoop => rfl
  | inboundLoop left =>
    simp only [hp, Place.index] at h
    split at h
    · cases h
    · cases h
  | _ => simp [hp, Place.index] at h

theorem Manager.at_drain {m : Manager} (h : m.place.index m.left = 3) :
    ∃ left > 0, m.phase = .inboundLoop left := by
  unfold place left at h
  cases hp : m.phase with
  | inboundLoop left =>
    simp only [hp, Place.index, ite_eq_left_iff, Nat.reduceEqDiff, imp_false, not_not] at h
    exact ⟨left, h, rfl⟩
  | _ => simp [hp, Place.index] at h

theorem RemoteProxy.at_recv {c : RemoteProxy} (h : c.place.index c.left = 2) :
    c.phase = .recvLoop := by
  unfold place left at h
  cases hp : c.phase with
  | recvLoop => rfl
  | batch left =>
    simp only [hp, Place.index] at h
    split at h
    · cases h
    · cases h
  | _ => simp [hp, Place.index] at h

theorem RemoteProxy.at_drain {c : RemoteProxy} (h : c.place.index c.left = 3) :
    ∃ left > 0, c.phase = .batch left := by
  unfold place left at h
  cases hp : c.phase with
  | batch left =>
    simp only [hp, Place.index, ite_eq_left_iff, Nat.reduceEqDiff, imp_false, not_not] at h
    exact ⟨left, h, rfl⟩
  | _ => simp [hp, Place.index] at h

namespace System
variable {s s' : System} {p : Int} {t : Tunnel.State Peer UInt8} {a : Action}

theorem mgrStep_clientIo {mask : Mask} {events : List (ManagerKey × Mask)} {io : ClientIO}
    (hp : s.server.mgr.phase = .dispatch ((.client, mask) :: events))
    (hs : s.mgrStep (.clientIo io) = some s') :
    s'.server.mgr.sendq = (s.server.mgr.handleRelayClient mask io).state.sendq ∧
      receivedBy s.server.mgr.recvq (s.server.mgr.handleRelayClient mask io).state.recvq ++
        s'.up = s.up := by
  obtain ⟨srv, hsrv, ⟨io', heq, ⟨rest, hwire⟩, rfl⟩ | ⟨hio, -⟩⟩ := mgrStep_cases hs
  · simp only [Server.mgrStep, hp, Option.ite_none_right_eq_some, Option.some.injEq] at hsrv
    obtain ⟨-, rfl⟩ := hsrv
    simp only [Server.withMgr] at hwire ⊢
    refine ⟨trivial, ?_⟩
    rw [← hwire, List.drop_left]
  · exact absurd rfl (hio io)

theorem mgr_sends (hs : step s a = some s') (ha : a.OfManager)
    (hcalls : Thread.Calls (wants .client Mask.write) s.server.mgr.place)
    (hq : s.server.mgr.sendq ≠ []) (hg : a.sends) :
    s'.server.mgr.sendq.length < s.server.mgr.sendq.length := by
  obtain ⟨b, rfl⟩ := ha
  obtain ⟨mask, events, hp, hw⟩ := Manager.place_calls hcalls
  cases b with
  | clientIo io =>
    obtain ⟨n, hn, hsend⟩ := hg
    rw [(mgrStep_clientIo hp hs).1, Manager.handleRelayClient_sends hw hq hsend, List.length_drop]
    have hlen := List.length_pos_iff.mpr hq
    omega
  | _ => cases hg

theorem mgr_receives (hs : step s a = some s') (hu : s.undisturbed a = true) (ha : a.OfManager)
    (hcalls : Thread.Calls (wants .client Mask.read) s.server.mgr.place) (hg : a.receives) :
    s'.up.length < s.up.length := by
  obtain ⟨b, rfl⟩ := ha
  obtain ⟨mask, events, hp, hr⟩ := Manager.place_calls hcalls
  cases b with
  | clientIo io =>
    obtain ⟨data, hne, hrecv⟩ := hg
    simp only [undisturbed, hp] at hu
    have hup := (mgrStep_clientIo hp hs).2
    rw [Manager.handleRelayClient_recvq (Manager.callsRecv_of_harmless hr hu)
      (congrArg recvResult hrecv), receivedBy, List.drop_left] at hup
    rw [← hup, List.length_append]
    have hlen := List.length_pos_iff.mpr hne
    omega
  | _ => cases hg

theorem mgr_drains (hs : step s a = some s') (hup : s.Up) (ha : a.OfManager)
    (hat : s.server.mgr.place.index s.server.mgr.left = 3) (hq : s.server.mgr.inboundData ≠ []) :
    s'.server.mgr.inboundData.length < s.server.mgr.inboundData.length := by
  obtain ⟨b, rfl⟩ := ha
  obtain ⟨left, hleft, hp⟩ := Manager.at_drain hat
  have hserver := mgrStep_server hs
  cases b with
  | turn =>
    simp only [Server.mgrStep, hp, Option.some.injEq] at hserver
    rw [← hserver, Server.withMgr_mgr]
    have hdrains := s.server.mgr.inboundTurn_drains left
    generalize s.server.mgr.inboundTurn left = m at hdrains
    cases hdrains with
    | ends hend =>
      rcases hend with h0 | hclose | hnil
      · omega
      · cases hup.closeThread.symm.trans hclose
      · exact absurd hnil hq
    | sends _ hi hsend =>
      obtain ⟨data, writeEnabled, mask, -, rfl⟩ := Manager.send_sent hsend
      rw [hi]
      exact Nat.lt_succ_self _
    | fails hi =>
      rw [hi]
      exact Nat.lt_succ_self _
  | _ => simp [Server.mgrStep, hp] at hserver

theorem mgr_takes (hs : step s a = some s') (hm : Models (fun _ _ => True) False p s t)
    (ha : a.OfManager) (hat : s.server.mgr.place.index s.server.mgr.left = 2)
    (hx : ∃ x, ItemOk p x ∧ frameBytes x <+: s.server.mgr.recvq) :
    s'.server.mgr.recvq.length < s.server.mgr.recvq.length := by
  obtain ⟨b, rfl⟩ := ha
  have hp := Manager.at_recv hat
  obtain ⟨x, hx, rest, hrest⟩ := hx
  have hgrab := (hx.grabMsg ⟨Int.le_of_lt hm.port.1, hm.port.2⟩).mpr hrest.symm
  have hserver := mgrStep_server hs
  cases b with
  | recvTurn results =>
    rcases hm.peaceful.recvTurn (Server.mgrStep_recvTurn hserver).2.2 with
      ⟨-, hno⟩ | ⟨msg, recvq, rid, q, hg, -, -, heq⟩
    · exact absurd hgrab (hno _)
    · have hlt := deserialize_shrinks hg
      rw [heq]
      exact (show recvq.length < _ by omega)
  | _ => simp [Server.mgrStep, hp] at hserver

theorem remoteStep_relayIo {mask : Mask} {events : List (RemoteKey × Mask)} {io : RelayIO}
    (hp : s.client.remote.phase = .dispatch ((.client, mask) :: events))
    (hs : s.remoteStep (.relayIo io) = some s') :
    s'.client.remote.sendq = (s.client.remote.handleRelay mask io).state.sendq ∧
      receivedBy s.client.remote.recvq (s.client.remote.handleRelay mask io).state.recvq ++
        s'.down = s.down := by
  obtain ⟨c, hc, ⟨io', heq, ⟨rest, hwire⟩, rfl⟩ | ⟨hio, -⟩⟩ := remoteStep_cases hs
  · simp only [Client.remoteStep, hp, Option.ite_none_right_eq_some, Option.some.injEq] at hc
    obtain ⟨-, rfl⟩ := hc
    simp only at hwire ⊢
    refine ⟨trivial, ?_⟩
    rw [← hwire, List.drop_left]
  · exact absurd rfl (hio io)

theorem remote_sends (hs : step s a = some s') (ha : a.OfRemote)
    (hcalls : Thread.Calls (wants .client Mask.write) s.client.remote.place)
    (hq : s.client.remote.sendq ≠ []) (hg : a.sends) :
    s'.client.remote.sendq.length < s.client.remote.sendq.length := by
  obtain ⟨b, rfl⟩ := ha
  obtain ⟨mask, events, hp, hw⟩ := RemoteProxy.place_calls hcalls
  cases b with
  | relayIo io =>
    obtain ⟨n, hn, hsend⟩ := hg
    rw [(remoteStep_relayIo hp hs).1, RemoteProxy.handleRelay_sends hw hq hsend, List.length_drop]
    have hlen := List.length_pos_iff.mpr hq
    omega
  | _ => cases hg

theorem remote_receives (hs : step s a = some s') (hu : s.undisturbed a = true) (ha : a.OfRemote)
    (hcalls : Thread.Calls (wants .client Mask.read) s.client.remote.place) (hg : a.receives) :
    s'.down.length < s.down.length := by
  obtain ⟨b, rfl⟩ := ha
  obtain ⟨mask, events, hp, hr⟩ := RemoteProxy.place_calls hcalls
  cases b with
  | relayIo io =>
    obtain ⟨data, hne, hrecv⟩ := hg
    simp only [undisturbed, hp] at hu
    have hdown := (remoteStep_relayIo hp hs).2
    rw [RemoteProxy.handleRelay_recvq (RemoteProxy.callsRecv_of_harmless hr hu)
      (congrArg recvResult hrecv), receivedBy, List.drop_left] at hdown
    rw [← hdown, List.length_append]
    have hlen := List.length_pos_iff.mpr hne
    omega
  | _ => cases hg

theorem remote_drains (hs : step s a = some s') (hup : s.Up)
    (hm : Models (fun _ _ => True) False p s t) (ha : a.OfRemote)
    (hat : s.client.remote.place.index s.client.remote.left = 3)
    (hne : s.client.remote.toRemoteProxy ≠ []) :
    s'.client.remote.toRemoteProxy.length < s.client.remote.toRemoteProxy.length := by
  obtain ⟨b, rfl⟩ := ha
  obtain ⟨left, hleft, hp⟩ := RemoteProxy.at_drain hat
  have hclient := remoteStep_client hs
  cases b with
  | turn =>
    simp only [Client.remoteStep, hp, Option.some.injEq] at hclient
    rw [← hclient]
    obtain ⟨fd, qs, -, -, -, hU⟩ := hm.refines
    have hq : ∀ q ∈ s.client.remote.toRemoteProxy, ItemOk p q ∧ q.kind ≠ .newConnection :=
      fun q hmem => hU.items q (by simp [upItems, hmem])
    have hbatches := RemoteProxy.batchTurn_batches ⟨Int.le_of_lt hm.port.1, hm.port.2⟩ hq
      hup.registered left
    generalize s.client.remote.batchTurn left = c at hbatches
    cases hbatches with
    | ends hend =>
      rcases hend with h0 | hnil
      · omega
      · exact absurd hnil hne
    | sends _ hto =>
      rw [hto]
      exact Nat.lt_succ_self _
  | _ => simp [Client.remoteStep, hp] at hclient

theorem remote_takes (hs : step s a = some s') (hp : 0 ≤ p ∧ p < 65536) (ha : a.OfRemote)
    (hat : s.client.remote.place.index s.client.remote.left = 2)
    (hx : ∃ x, ItemOk p x ∧ frameBytes x <+: s.client.remote.recvq) :
    s'.client.remote.recvq.length < s.client.remote.recvq.length := by
  obtain ⟨b, rfl⟩ := ha
  have hphase := RemoteProxy.at_recv hat
  obtain ⟨x, hx, rest, hrest⟩ := hx
  have hgrab := (hx.grabMsg hp).mpr hrest.symm
  have hclient := remoteStep_client hs
  cases b with
  | turn =>
    simp only [Client.remoteStep, hphase, Option.some.injEq] at hclient
    rw [← hclient]
    unfold Client.recvTurn
    split
    · rename_i hnil
      rw [hnil] at hgrab
      cases hgrab
    · have hlt := deserialize_shrinks hgrab
      rw [hgrab]
      simp only [Client.processMsg_remote]
      omega
  | _ => simp [Client.remoteStep, hphase] at hclient

/-! ## Runs -/

theorem Reachable.armed_client {P : System → Action → Prop} (h : Reachable P s) :
    s.client.Armed := by
  refine Transition.Reach.invariant (J := fun s => s.client.Armed) ?_ ?_ h
  · rintro _ ⟨p, -, -, rfl⟩
    refine ⟨⟨fun m hm => ?_, by simp [start]⟩, by simp [start]⟩
    exact (Option.some.inj hm).symm
  · intro s a s' hI _ hs
    cases a with
    | mgr a => rwa [mgrStep_client hs]
    | relay a =>
      obtain ⟨r, puts, -, rfl⟩ := relayStep_cases hs
      exact hI
    | remote a => exact Client.remoteStep_armed hI (remoteStep_client hs)
    | proxy a =>
      obtain ⟨-, l, puts, -, rfl⟩ := proxyStep_cases hs
      exact ⟨{ hI.remote with }, hI.registered⟩
    | serverShutdown => cases hs; exact hI
    | clientShutdown => cases hs; exact ⟨hI.remote, fun _ => rfl⟩

/-- In a session the management socket of the client is registered. -/
theorem remote_mask (h : s.Session) :
    s.client.remote.mask = some (if s.client.remote.writeEnabled then .rw else .r) := by
  obtain ⟨mask, hmask⟩ := Option.isSome_iff_exists.mp (Reachable.up h).registered
  rw [hmask, (Reachable.armed_client h).remote.mask mask hmask]

/-- A run of a session that nothing disturbs. -/
structure Quiet (ρ : Run (Fires step)) : Prop where
  init : Init (ρ.state 0)
  undisturbed : ∀ i, (ρ.state i).undisturbed (ρ.act i)

/-- Both management threads run, and the management connection moves bytes: where a thread is
registered for an event and there are bytes to be sent or to be received, again and again, `select`
reports the event again and again, and again and again a call for it moves bytes. -/
structure Working (ρ : Run (Fires step)) : Prop where
  managerRuns : ρ.Fair Action.OfManager
  remoteRuns : ρ.Fair Action.OfRemote
  managerSends : managerLoop.Serves ρ (fun s => s.server.mgr.mask.write = true)
    (fun s => s.server.mgr.sendq ≠ []) (wants .client Mask.write) Action.sends
  managerReceives : managerLoop.Serves ρ (fun s => s.server.mgr.mask.read = true)
    (fun s => s.up ≠ []) (wants .client Mask.read) Action.receives
  remoteSends : remoteLoop.Serves ρ (fun s => ∃ mask ∈ s.client.remote.mask, mask.write = true)
    (fun s => s.client.remote.sendq ≠ []) (wants .client Mask.write) Action.sends
  remoteReceives : remoteLoop.Serves ρ (fun s => ∃ mask ∈ s.client.remote.mask, mask.read = true)
    (fun s => s.down ≠ []) (wants .client Mask.read) Action.receives

namespace Quiet
variable {ρ : Run (Fires step)}

theorem session (h : Quiet ρ) (i : ℕ) : (ρ.state i).Session :=
  Run.reach h.undisturbed (.init h.init) i

/-- One relay has the same port all the time. -/
theorem models (h : Quiet ρ) : ∃ p : Int, 0 ≤ p ∧ p < 65536 ∧
    ∀ i, ∃ t, Models (fun _ _ => True) False p (ρ.state i) t := by
  obtain ⟨p, hpos, hlt, hstart⟩ := h.init
  have hport (i : ℕ) : (ρ.state i).relay.identifyingPort = p := by
    induction i with
    | zero => rw [hstart]; rfl
    | succ i ih =>
      obtain ⟨p', t, hm⟩ := Reachable.models_any (h.session i)
      refine (step_port ?_ (ρ.moves i)).trans ih
      rw [hm.refines.choose_spec.choose_spec.1.nrelays]
      exact Nat.one_pos
  refine ⟨p, Int.le_of_lt hpos, hlt, fun i => ?_⟩
  obtain ⟨p', t, hm⟩ := Reachable.models_any (h.session i)
  exact ⟨t, hm.port_eq.symm.trans (hport i) ▸ hm⟩

theorem channels (h : Quiet ρ) {p : Int}
    (hm : ∀ i, ∃ t, Models (fun _ _ => True) False p (ρ.state i) t) (i : ℕ) :
    Channels p (ρ.state i) (ρ.act i) (ρ.state (i + 1)) := by
  obtain ⟨t, ht⟩ := hm i
  obtain ⟨t', ht'⟩ := hm (i + 1)
  exact step_channels (Reachable.up (h.session i)) ht ht' (Reachable.tidy (h.session i))
    (ρ.moves i)

end Quiet

/-- What has been put into a channel and handed out of it before step `i` of a run. -/
def sentDown (ρ : Run (Fires step)) : ℕ → List QueuedRelayMessage :=
  Chan.before fun i => (ρ.state i).downPut (ρ.act i) (ρ.state (i + 1))

def gotDown (ρ : Run (Fires step)) : ℕ → List QueuedRelayMessage :=
  Chan.before fun i => (ρ.state i).downHand (ρ.act i) (ρ.state (i + 1))

def sentUp (ρ : Run (Fires step)) : ℕ → List QueuedRelayMessage :=
  Chan.before fun i => (ρ.state i).upPut (ρ.act i) (ρ.state (i + 1))

def gotUp (ρ : Run (Fires step)) : ℕ → List QueuedRelayMessage :=
  Chan.before fun i => (ρ.state i).upHand (ρ.act i) (ρ.state (i + 1))

def downHistory {ρ : Run (Fires step)} (h : Quiet ρ) {p : Int}
    (hm : ∀ i, ∃ t, Models (fun _ _ => True) False p (ρ.state i) t) :
    Chan.History (ItemOk p) frameBytes where
  chan i := (ρ.state i).downChan
  put i := (ρ.state i).downPut (ρ.act i) (ρ.state (i + 1))
  hand i := (ρ.state i).downHand (ρ.act i) (ρ.state (i + 1))
  empty := by
    obtain ⟨q, -, -, hstart⟩ := h.init
    rw [hstart]
    rfl
  moves i := (h.channels hm i).down

def upHistory {ρ : Run (Fires step)} (h : Quiet ρ) {p : Int}
    (hm : ∀ i, ∃ t, Models (fun _ _ => True) False p (ρ.state i) t) :
    Chan.History (ItemOk p) frameBytes where
  chan i := (ρ.state i).upChan
  put i := (ρ.state i).upPut (ρ.act i) (ρ.state (i + 1))
  hand i := (ρ.state i).upHand (ρ.act i) (ρ.state (i + 1))
  empty := by
    obtain ⟨q, -, -, hstart⟩ := h.init
    rw [hstart]
    rfl
  moves i := (h.channels hm i).up

section
variable {ρ : Run (Fires step)} (h : Quiet ρ) (hw : Working ρ) {p : Int}
  (hm : ∀ i, ∃ t, Models (fun _ _ => True) False p (ρ.state i) t)
include h hw

theorem downServed (hp : 0 ≤ p ∧ p < 65536) : (downHistory h hm).Served where
  frames hq := by
    refine ((managerLoop.recurs h.session hw.managerRuns (by decide : 3 < 4)).and_eventually
      hq).mono ?_
    rintro j ⟨⟨ha, hat⟩, hq⟩
    exact mgr_drains (ρ.moves j) (Reachable.up (h.session j)) ha hat hq
  sends hq := by
    refine (hw.managerSends.again h.session hw.managerRuns (fun i _ hq => ?_) hq).mono ?_
    · have harmed := Reachable.armed (h.session i)
      rw [harmed.mask, if_pos (harmed.flag.mpr hq)]
      rfl
    · rintro j ⟨ha, hcalls, hq, hg⟩
      exact mgr_sends (ρ.moves j) ha hcalls hq hg
  receives hq := by
    refine (hw.remoteReceives.again h.session hw.remoteRuns (fun i _ hq => ?_) hq).mono ?_
    · refine ⟨_, remote_mask (h.session i), ?_⟩
      split
      · rfl
      · rfl
    · rintro j ⟨ha, hcalls, -, hg⟩
      exact remote_receives (ρ.moves j) (h.undisturbed j) ha hcalls hg
  takes hx := by
    refine ((remoteLoop.recurs h.session hw.remoteRuns (by decide : 2 < 4)).and_eventually
      hx).mono ?_
    rintro j ⟨⟨ha, hat⟩, hx⟩
    exact remote_takes (ρ.moves j) hp ha hat hx

theorem upServed : (upHistory h hm).Served where
  frames hq := by
    refine ((remoteLoop.recurs h.session hw.remoteRuns (by decide : 3 < 4)).and_eventually
      hq).mono ?_
    rintro j ⟨⟨ha, hat⟩, hq⟩
    obtain ⟨t, ht⟩ := hm j
    exact remote_drains (ρ.moves j) (Reachable.up (h.session j)) ht ha hat hq
  sends hq := by
    refine (hw.remoteSends.again h.session hw.remoteRuns (fun i _ hq => ?_) hq).mono ?_
    · have hflag := (Reachable.armed_client (h.session i)).remote.flag hq
      exact ⟨_, remote_mask (h.session i), by rw [hflag]; rfl⟩
    · rintro j ⟨ha, hcalls, hq, hg⟩
      exact remote_sends (ρ.moves j) ha hcalls hq hg
  receives hq := by
    refine (hw.managerReceives.again h.session hw.managerRuns (fun i _ hq => ?_) hq).mono ?_
    · rw [(Reachable.armed (h.session i)).mask]
      split
      · rfl
      · rfl
    · rintro j ⟨ha, hcalls, -, hg⟩
      exact mgr_receives (ρ.moves j) (h.undisturbed j) ha hcalls hg
  takes hx := by
    refine ((managerLoop.recurs h.session hw.managerRuns (by decide : 2 < 4)).and_eventually
      hx).mono ?_
    rintro j ⟨⟨ha, hat⟩, hx⟩
    obtain ⟨t, ht⟩ := hm j
    exact mgr_takes (ρ.moves j) ht ha hat hx

end

theorem gotDown_sent {ρ : Run (Fires step)} (h : Quiet ρ) (i : ℕ) :
    gotDown ρ i <+: sentDown ρ i := by
  obtain ⟨p, hpos, hlt, hm⟩ := h.models
  exact (downHistory h hm).hand_before (itemCode ⟨hpos, hlt⟩) i

theorem gotUp_sent {ρ : Run (Fires step)} (h : Quiet ρ) (i : ℕ) : gotUp ρ i <+: sentUp ρ i := by
  obtain ⟨p, hpos, hlt, hm⟩ := h.models
  exact (upHistory h hm).hand_before (itemCode ⟨hpos, hlt⟩) i

/-- **The management connection is a reliable channel in both directions**: in a session that
nothing disturbs, the items that either end has handed on are the first of those that the other end
has put on its queue, in the same order; and if both management threads run and the connection moves
bytes, every item that either end puts on its queue is handed on at the other. -/
theorem connection_delivers {ρ : Run (Fires step)} (h : Quiet ρ) (i : ℕ) :
    (gotDown ρ i <+: sentDown ρ i ∧ gotUp ρ i <+: sentUp ρ i) ∧
      (Working ρ →
        (∃ j ≥ i, sentDown ρ i <+: gotDown ρ j) ∧ ∃ j ≥ i, sentUp ρ i <+: gotUp ρ j) := by
  obtain ⟨p, hpos, hlt, hm⟩ := h.models
  have hcode := itemCode ⟨hpos, hlt⟩
  exact ⟨⟨gotDown_sent h i, gotUp_sent h i⟩,
    fun hw => ⟨(downHistory h hm).delivers hcode (downServed h hw hm ⟨hpos, hlt⟩) i,
      (upHistory h hm).delivers hcode (upServed h hw hm) i⟩⟩

/-! ## A run in which it delivers -/

/-- No bytes wait for the management connection. -/
def still (s : System) : Bool :=
  s.server.mgr.sendq.isEmpty && s.up.isEmpty && s.client.remote.sendq.isEmpty && s.down.isEmpty

/-- Both management threads are about to call `select`, and nothing waits for them. -/
def resting (s : System) : Bool :=
  s.still && s.server.mgr.phase = .top && s.server.mgr.recvq.isEmpty &&
    s.server.mgr.inboundData.isEmpty && !s.server.closeService && !s.server.mgr.closeThread &&
    s.client.remote.phase = .top && s.client.remote.recvq.isEmpty &&
    s.client.remote.toRemoteProxy.isEmpty && !s.client.close

/-- One turn of both loops. -/
def Run.turns : List Action :=
  [.mgr (.select []), .mgr .turn, .mgr (.recvTurn []), .mgr .turn,
    .remote (.select []), .remote .turn, .remote .turn, .remote .turn]

theorem exec_turns (h : s.resting = true) :
    exec step (fun s a => s.undisturbed a && s.still) s Run.turns = some s := by
  obtain ⟨⟨mgr, relay, nrelays, enqueued, portRange, closeService⟩, ⟨remote, proxy, close⟩, down,
    up, downTags, upTags⟩ := s
  obtain ⟨phase, closeThread, inboundData, relays, sendq, recvq, _, _, _, _, _, _⟩ := mgr
  obtain ⟨rphase, toRemoteProxy, rsendq, rrecvq, _, _, _, _⟩ := remote
  simp only [resting, still, Bool.and_eq_true, List.isEmpty_iff, decide_eq_true_eq,
    Bool.not_eq_true'] at h
  obtain ⟨⟨⟨⟨⟨⟨⟨⟨⟨hstill, rfl⟩, rfl⟩, rfl⟩, rfl⟩, rfl⟩, rfl⟩, rfl⟩, rfl⟩, rfl⟩ := h
  obtain ⟨⟨⟨rfl, rfl⟩, rfl⟩, rfl⟩ := hstill
  rfl

/-- Steps that come to a state in which both management threads go round in a circle begin a run in
which the connection works. -/
theorem exists_working {test : System → Action → Bool}
    (htest : ∀ s a, test s a = true → s.undisturbed a = true) {s u t : System} {a : Action}
    {as : List Action} (hs : Init s) (h : Steps (Fires step) (fun s a => test s a) s u)
    (h' : Steps (Fires step) (fun s a => test s a) u t)
    (hx : exec step (fun s a => test s a && s.still) t (a :: as) = some t)
    (hmanager : ∃ b ∈ a :: as, b.OfManager) (hremote : ∃ b ∈ a :: as, b.OfRemote) :
    ∃ ρ, Quiet ρ ∧ (∀ i, test (ρ.state i) (ρ.act i) = true) ∧ Working ρ ∧ (∃ k, ρ.state k = u) ∧
      ∀ own : Action → Prop, (∃ b ∈ a :: as, own b) → ρ.Fair own := by
  obtain ⟨ρ, hρ, hcycle, hagain⟩ := Transition.Run.exists_cycle hx
  obtain ⟨ρ₁, hρ₁, k₁, hbefore₁, hk₁⟩ := Transition.Run.exists_prepend h' ρ hρ
  obtain ⟨ρ', hρ', k₂, hbefore₂, hk₂⟩ := Transition.Run.exists_prepend h ρ₁ hρ₁
  let k := k₁ + k₂
  have hk (j : ℕ) : ρ'.state (j + k) = ρ.state j ∧ ρ'.act (j + k) = ρ.act j := by
    have hj := hk₂ (j + k₁)
    rw [(hk₁ j).1, (hk₁ j).2, Nat.add_assoc] at hj
    exact hj
  have hbefore (i : ℕ) (hi : i < k) : test (ρ'.state i) (ρ'.act i) = true := by
    rcases Nat.lt_or_ge i k₂ with hlt | hge
    · exact hbefore₂ i hlt
    · obtain ⟨j, rfl⟩ := Nat.exists_eq_add_of_le' hge
      rw [(hk₂ j).1, (hk₂ j).2]
      exact hbefore₁ j (by omega)
  have hruns (own : Action → Prop) (hown : ∃ b ∈ a :: as, own b) : ρ'.Fair own := by
    obtain ⟨b, hb, hown⟩ := hown
    intro i _
    obtain ⟨j, hj, hact⟩ := hagain b hb i
    refine ⟨j + k, by omega, ?_⟩
    rw [(hk j).2, hact]
    exact hown
  have hbehind (j : ℕ) (hj : j ≥ k) :
      test (ρ'.state j) (ρ'.act j) = true ∧ (ρ'.state j).still = true := by
    obtain ⟨i, rfl⟩ := Nat.exists_eq_add_of_le' hj
    rw [(hk i).1, (hk i).2]
    exact (Bool.and_eq_true _ _).mp (hcycle i)
  have halways (i : ℕ) : test (ρ'.state i) (ρ'.act i) = true := by
    rcases Nat.lt_or_ge i k with hi | hi
    · exact hbefore i hi
    · exact (hbehind i hi).1
  have hstill : ∀ᶠ j in atTop, (ρ'.state j).still = true :=
    eventually_atTop.mpr ⟨k, fun j hj => (hbehind j hj).2⟩
  simp only [still, Bool.and_eq_true, List.isEmpty_iff] at hstill
  refine ⟨ρ', ⟨hρ' ▸ hs, fun i => htest _ _ (halways i)⟩, halways, {
    managerRuns := hruns _ hmanager
    remoteRuns := hruns _ hremote
    managerSends := .of_never (hstill.mono fun j hj => not_not.mpr hj.1.1.1)
    managerReceives := .of_never (hstill.mono fun j hj => not_not.mpr hj.1.1.2)
    remoteSends := .of_never (hstill.mono fun j hj => not_not.mpr hj.1.2)
    remoteReceives := .of_never (hstill.mono fun j hj => not_not.mpr hj.2) }, ⟨k₂, ?_⟩, hruns⟩
  rw [← hρ₁, ← (hk₂ 0).1, Nat.zero_add]

/-- The announcement of a connection arrives. -/
def Run.announced : List Action :=
  Run.listen ++ Run.accept Run.peer ++ Run.mgrSends 1 (Run.frame .newConnection []).length ++
    Run.remoteReceives (Run.frame .newConnection []) 1

theorem connection_delivers_newConnection : ∃ ρ : Run (Fires step), Quiet ρ ∧ Working ρ ∧
    (∃ k, (ρ.state k).proxy.toLocal = [⟨.newConnection, Run.peer.1, Run.peer.2, [], 4000⟩]) ∧
    ∀ i, (gotDown ρ i <+: sentDown ρ i ∧ gotUp ρ i <+: sentUp ρ i) ∧
      (∃ j ≥ i, sentDown ρ i <+: gotDown ρ j) ∧ ∃ j ≥ i, sentUp ρ i <+: gotUp ρ j := by
  have hx : (run (fun s a => s.undisturbed a) Run.announced).map (fun s =>
      (s.resting, s.proxy.toLocal)) =
        some (true, [⟨.newConnection, Run.peer.1, Run.peer.2, [], 4000⟩]) := by
    decide +kernel
  obtain ⟨t, ht, hseen⟩ := Option.map_eq_some_iff.mp hx
  obtain ⟨hrest, hlocal⟩ := Prod.mk.inj hseen
  obtain ⟨ρ, hquiet, -, hworking, ⟨k, hk⟩, -⟩ := exists_working (fun _ _ h => h) (s := start 4000)
    ⟨4000, by decide, by decide, rfl⟩ (.exec (fun _ _ h => h) ht) .refl (exec_turns hrest)
    ⟨.mgr .turn, by simp, _, rfl⟩ ⟨.remote .turn, by simp, _, rfl⟩
  refine ⟨ρ, hquiet, hworking, ⟨k, hk ▸ hlocal⟩, fun i => ?_⟩
  obtain ⟨hfifo, hdelivers⟩ := connection_delivers hquiet i
  exact ⟨hfifo, hdelivers hworking⟩

end System
end PortPort
