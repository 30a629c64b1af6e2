import PortPort.Server.ThreadsEnd
import PortPort.System.Integrity
import PortPort.System.Session

/-! # What ends a session

Nothing that the hosts at either end of a proxied connection do ends the session of the two
programs: this takes a signal, or a failure of the management connection itself. -/

namespace PortPort
open PortPortMessage
open Tunnel (State)

/-! ## Steps that leave the session up -/

/-- In the loop of `create_remote_proxy`. -/
def RemotePhase.inLoop : RemotePhase → Bool
  | .joining | .done | .crashed _ => false
  | _ => true

/-- Not in the final clean-up of `create_local_proxy`. -/
def LocalPhase.serving : LocalPhase → Bool
  | .closing | .done => false
  | _ => true

/-- Not in the final clean-up of `Relay.open`. -/
def RelayPhase.serving : RelayPhase → Bool
  | .closing | .closed => false
  | _ => true

/-- The result of a call on the management socket that is no end of the connection: neither
callback does more about an error of this kind than to go on. -/
def tolerated {α : Type} : Except OSError α → Bool
  | .ok _ | .error .blockingIo | .error .sslWantRead | .error .sslWantWrite => true
  | .error _ => false

/-- What `send` and `recv` return to a callback for the events `mask`, if it calls them, is no end
of the connection. -/
def harmless (mask : Mask) (sendq : Bytes) (send : Except OSError Nat)
    (recv : Except OSError Bytes) : Bool :=
  (!(mask.write && sendq ≠ []) || tolerated send) &&
    (!mask.read || (tolerated recv && recv ≠ .ok []))

namespace Manager
variable {m : Manager}

/-- The callback has returned and has not asked the thread to end. -/
def GoesOn (out : Outcome Manager) : Prop := out.raised = none ∧ out.state.closeThread = false

theorem handleWrite_goesOn (h : m.closeThread = false) (send : Except OSError Nat) :
    GoesOn (m.handleWrite send) ↔ tolerated send = true := by
  have hflag (sent : Outcome Manager) :
      GoesOn (if sent.raised = none ∧ sent.state.sendq = [] then
        { state := { sent.state with writeEnabled := false, mask := .r } }
      else sent) ↔ GoesOn sent := by
    unfold GoesOn
    split
    · rename_i hsent
      simp [hsent.1]
    · rfl
  unfold handleWrite
  refine (hflag _).trans ?_
  cases send with
  | ok => simp [GoesOn, tolerated, h]
  | error e => cases e <;> simp [GoesOn, tolerated, h]

theorem handleRead_goesOn (h : m.closeThread = false) (recv : Except OSError Bytes) :
    GoesOn (m.handleRead recv) ↔ (tolerated recv && recv ≠ .ok []) = true := by
  cases recv with
  | ok data => cases data <;> simp [GoesOn, handleRead, tolerated, h]
  | error e => cases e <;> simp [GoesOn, handleRead, tolerated, h]

theorem handleRelayClient_goesOn (h : m.closeThread = false) (mask : Mask) (io : ClientIO) :
    GoesOn (m.handleRelayClient mask io) ↔
      harmless mask m.sendq io.send io.recv = true := by
  have hread (out : Outcome Manager) :
      GoesOn (if out.raised = none ∧ mask.read then out.state.handleRead io.recv else out) ↔
        GoesOn out ∧ (!mask.read || (tolerated io.recv && io.recv ≠ .ok [])) = true := by
    by_cases hmask : mask.read = true
    · simp only [hmask, and_true, Bool.not_true, Bool.false_or]
      by_cases hraised : out.raised = none
      · rw [if_pos hraised]
        cases hclose : out.state.closeThread with
        | false =>
          rw [handleRead_goesOn hclose]
          exact ⟨fun hr => ⟨⟨hraised, hclose⟩, hr⟩, And.right⟩
        | true =>
          have hkept := handleRead_closeThread io.recv hclose
          simp [GoesOn, hkept, hclose]
      · rw [if_neg hraised]
        simp [GoesOn, hraised]
    · simp [hmask]
  have hwrite : GoesOn (if mask.write && m.sendq ≠ [] then m.handleWrite io.send
      else { state := m }) ↔ (!(mask.write && m.sendq ≠ []) || tolerated io.send) = true := by
    split
    · rename_i hw
      rw [handleWrite_goesOn h, hw]
      rfl
    · rename_i hw
      simp only [Bool.not_eq_true] at hw
      rw [hw]
      exact iff_of_true ⟨rfl, h⟩ rfl
  unfold harmless
  rw [Bool.and_eq_true, ← hwrite]
  exact hread _

end Manager

namespace RemoteProxy
variable {c : RemoteProxy}

/-- The callback has returned and has not set the close event. -/
def GoesOn (out : RemoteOutcome) : Prop := out.raised = none ∧ out.close = false

theorem handleWrite_goesOn (send : Except OSError Nat) :
    GoesOn (c.handleWrite send) ↔ tolerated send = true := by
  cases send with
  | ok => simp [GoesOn, handleWrite, tolerated]
  | error e => cases e <;> simp [GoesOn, handleWrite, tolerated]

theorem handleRead_goesOn (recv : Except OSError Bytes) :
    GoesOn (c.handleRead recv) ↔ (tolerated recv && recv ≠ .ok []) = true := by
  cases recv with
  | ok data => cases data <;> simp [GoesOn, handleRead, tolerated]
  | error e => cases e <;> simp [GoesOn, handleRead, tolerated]

/-- A callback that goes on leaves the socket registered. -/
theorem handleRead_registered {recv : Except OSError Bytes} (h : GoesOn (c.handleRead recv)) :
    (c.handleRead recv).state.mask = c.mask := by
  cases recv with
  | ok data =>
    cases data with
    | nil => cases h.2
    | cons => rfl
  | error e =>
    cases e with
    | connectionReset | brokenPipe => cases h.2
    | _ => rfl

theorem handleWrite_registered {send : Except OSError Nat} (h : GoesOn (c.handleWrite send)) :
    (c.handleWrite send).state.mask = c.mask := by
  cases send with
  | ok => rfl
  | error e =>
    cases e with
    | connectionReset | brokenPipe => cases h.2
    | _ => rfl

/-- The callback reads behind a write unless this has ended the connection or the thread. -/
theorem handleWrite_reads (send : Except OSError Nat) :
    (c.handleWrite send).returned = false ∧ (c.handleWrite send).raised = none ↔
      GoesOn (c.handleWrite send) := by
  cases send with
  | ok => simp [GoesOn, handleWrite]
  | error e => cases e <;> simp [GoesOn, handleWrite]

theorem handleRelay_goesOn (mask : Mask) (io : RelayIO) :
    (GoesOn (c.handleRelay mask io) ↔ harmless mask c.sendq io.send io.recv = true) ∧
      (GoesOn (c.handleRelay mask io) → (c.handleRelay mask io).state.mask = c.mask) := by
  have hread (out : RemoteOutcome)
      (hr : out.returned = false ∧ out.raised = none ↔ GoesOn out)
      (hmask : GoesOn out → out.state.mask = c.mask) :
      let out' := if out.returned = false ∧ out.raised = none ∧ mask.read then
          out.state.handleRead io.recv else out
      (GoesOn out' ↔
        GoesOn out ∧ (!mask.read || (tolerated io.recv && io.recv ≠ .ok [])) = true) ∧
      (GoesOn out' → out'.state.mask = c.mask) := by
    intro out'
    by_cases hm : mask.read = true
    · by_cases hg : GoesOn out
      · have hout : out' = out.state.handleRead io.recv :=
          if_pos ⟨(hr.mpr hg).1, (hr.mpr hg).2, hm⟩
        rw [hout, handleRead_goesOn, hm]
        refine ⟨⟨fun h => ⟨hg, h⟩, And.right⟩, fun h => ?_⟩
        exact (handleRead_registered ((handleRead_goesOn _).mpr h)).trans (hmask hg)
      · have hout : out' = out := if_neg fun h => hg (hr.mp ⟨h.1, h.2.1⟩)
        rw [hout]
        exact ⟨iff_of_false hg fun h => hg h.1, hmask⟩
    · have hout : out' = out := if_neg fun h => hm h.2.2
      rw [hout]
      simp only [Bool.not_eq_true] at hm
      exact ⟨by simp [hm], hmask⟩
  unfold harmless
  rw [Bool.and_eq_true]
  by_cases hw : (mask.write && c.sendq ≠ []) = true
  · have hsent := hread (c.handleWrite io.send) (handleWrite_reads _) handleWrite_registered
    rw [handleWrite_goesOn] at hsent
    unfold handleRelay
    simp only [hw, if_true, Bool.not_true, Bool.false_or]
    exact hsent
  · have hsent := hread { state := c } (by simp [GoesOn]) fun _ => rfl
    unfold handleRelay
    simp only [Bool.not_eq_true] at hw
    simp only [hw, Bool.false_eq_true, if_false, Bool.not_false, Bool.true_or, true_and]
    simpa [GoesOn] using hsent

end RemoteProxy

/-- An item that is no announcement of a connection ends no relay. -/
theorem Relay.handleOutbound_raised (r : Relay) {m : QueuedRelayMessage}
    (h : m.kind ≠ .newConnection) :
    (r.handleOutbound m).raised = none ∨ (r.handleOutbound m).raised = some .keyError := by
  unfold Relay.handleOutbound
  split
  · exact .inr rfl
  split
  · simp only
    split
    · exact .inl rfl
    split
    · exact .inl rfl
    · exact .inr rfl
  · unfold Relay.cleanUpConnection
    split
    · exact .inr rfl
    · simp only
      split
      · exact .inr rfl
      · exact .inl rfl
  · exact absurd ‹_› h

/-- A relay that nobody asks to close goes on serving, unless an exception ends it. -/
theorem Relay.step_serving {r r' : Relay} {a : Relay.RelayAction}
    {puts : List (Nat × QueuedRelayMessage)} (hk : ∀ m ∈ r.outbound, m.kind ≠ .newConnection)
    (ha : a ≠ .wakeupRead true) (hs : r.step false a = some (r', puts))
    (hopen : r.atomicClose = false) (hp : r.phase.serving = true) :
    r'.atomicClose = false ∧ r'.phase.serving = true := by
  have hcallback {out : Outcome Relay} {events : List (RelayKey × Mask)}
      (hserves : Relay.Serves r out.state) :
      (Relay.afterCallback out events).atomicClose = false ∧
        (Relay.afterCallback out events).phase.serving = true := by
    obtain ⟨_, _, _, _, _, hout⟩ := hserves
    unfold Relay.afterCallback
    split
    · exact ⟨(congrArg Relay.atomicClose hout).trans hopen, rfl⟩
    · exact ⟨(congrArg Relay.atomicClose hout).trans hopen, rfl⟩
  cases Relay.step_moves hs with
  | leaves _ hc => simp [hopen] at hc
  | accepts => exact hcallback ⟨_, _, _, _, _, rfl⟩
  | io => exact hcallback (Relay.handleSocket_serves ..)
  | wakeupRead _ eof =>
    cases eof with
    | false => exact ⟨(Bool.or_false _).trans hopen, rfl⟩
    | true => exact absurd rfl ha
  | @handles m rest _ _ ho =>
    obtain ⟨_, _, _, _, _, hout⟩ := Relay.handleOutbound_serves { r with outbound := rest } m
    have hatomic : ({ r with outbound := rest }.handleOutbound m).state.atomicClose = false :=
      (congrArg Relay.atomicClose hout).trans hopen
    unfold Relay.afterOutbound
    rcases Relay.handleOutbound_raised { r with outbound := rest }
      (hk m (ho ▸ List.mem_cons_self)) with hr | hr
    · rw [hr]
      exact ⟨hatomic, rfl⟩
    · rw [hr]
      exact ⟨hatomic, rfl⟩
  | cleansUp hph | closes hph =>
    rw [hph] at hp
    cases hp
  | _ => exact ⟨hopen, rfl⟩

theorem RemoteProxy.enqueueSendq_registered {c : RemoteProxy} (h : c.mask.isSome = true)
    (data : Bytes) :
    (c.enqueueSendq data).raised = none ∧ (c.enqueueSendq data).state.mask.isSome = true := by
  obtain ⟨registered, hregistered⟩ := Option.isSome_iff_exists.mp h
  unfold RemoteProxy.enqueueSendq
  simp only [hregistered]
  split
  · exact ⟨rfl, rfl⟩
  · exact ⟨rfl, rfl⟩

/-- A turn of the drain of `to_remote_proxy` crashes on nothing that the local proxy puts there. -/
theorem RemoteProxy.batchTurn_inLoop {c : RemoteProxy} {p : Int} (hp : 0 ≤ p ∧ p < 65536)
    (hq : ∀ q ∈ c.toRemoteProxy, ItemOk p q ∧ q.kind ≠ .newConnection)
    (hmask : c.mask.isSome = true) (left : Nat) :
    (c.batchTurn left).phase.inLoop = true ∧ (c.batchTurn left).mask.isSome = true := by
  unfold RemoteProxy.batchTurn
  split
  · exact ⟨rfl, hmask⟩
  split
  · exact ⟨rfl, hmask⟩
  · rename_i q rest hto
    obtain ⟨hitem, hkind⟩ := hq q (hto ▸ List.mem_cons_self)
    obtain ⟨hraised, hregistered⟩ := RemoteProxy.enqueueSendq_registered
      (c := { c with toRemoteProxy := rest }) hmask (encode (Manager.frameOf q))
    simp only [RemoteProxy.frameOf_eq hkind, (hitem.wellFormed hp).serialize, hraised]
    exact ⟨rfl, hregistered⟩

/-- A thread whose close event is not set goes on serving, unless an exception ends it. -/
theorem LocalProxy.step_serving {l l' : LocalProxy} {a : LocalProxy.LocalAction}
    {puts : List (Nat × QueuedRelayMessage)} (hs : l.step false a = some (l', puts))
    (hp : l.phase.serving = true) : l'.phase.serving = true := by
  have hafter {out : Outcome LocalProxy} {phase : LocalPhase} (h : phase.serving = true) :
      (LocalProxy.after out phase).phase.serving = true := by
    unfold LocalProxy.after
    cases out.raised with
    | none => exact h
    | some e => rfl
  cases LocalProxy.step_moves hs with
  | item | io => exact hafter rfl
  | drops hph | dropFails hph | ends hph =>
    rw [hph] at hp
    cases hp
  | _ => rfl

section
variable {A : State Peer UInt8 → Peer → Prop} {own : Prop} {p : Int} {s s' : System}
  {t : State Peer UInt8}

namespace System

/-! ## Runs -/

/-- No thread at either end has been asked to end, and none of them is on its way to its end. -/
structure Up (s : System) : Prop where
  closeService : s.server.closeService = false
  closeThread : s.server.mgr.closeThread = false
  manager : s.server.mgr.phase.inLoop = true
  atomicClose : s.relay.atomicClose = false
  relay : s.relay.phase.serving = true
  close : s.client.close = false
  registered : s.client.remote.mask.isSome = true
  remote : s.client.remote.phase.inLoop = true
  proxy : s.proxy.phase.serving = true

/-- No signal ends either program, the management connection does not fail at either end, and no
wakeup socket comes to its end of file. -/
def undisturbed (s : System) : Action → Bool
  | .mgr (.clientIo io) =>
    match s.server.mgr.phase with
    | .dispatch ((.client, mask) :: _) => harmless mask s.server.mgr.sendq io.send io.recv
    | _ => true
  | .remote (.relayIo io) =>
    match s.client.remote.phase with
    | .dispatch ((.client, mask) :: _) => harmless mask s.client.remote.sendq io.send io.recv
    | _ => true
  | .mgr (.wakeupRead eof) => !eof
  | .relay (.wakeupRead eof) => !eof
  | .serverShutdown | .clientShutdown => false
  | _ => true

theorem Up.mgrStep {a : Server.ManagerAction} (h : s.Up) (hm : Models A own p s t)
    (hu : s.undisturbed (.mgr a)) (hs : s.mgrStep a = some s') : s'.Up := by
  obtain ⟨srv, hsrv, ⟨io, rfl, -, rfl⟩ | ⟨hio, rfl⟩⟩ := mgrStep_cases hs
  · cases Server.mgrStep_moves hsrv with
    | @clientIo mask events _ hp =>
      simp only [undisturbed, hp] at hu
      obtain ⟨hraised, hclose⟩ := (Manager.handleRelayClient_goesOn h.closeThread mask io).mpr hu
      refine { h with closeThread := hclose, manager := ?_ }
      simp only [Server.withMgr, hraised]
      rfl
  · obtain ⟨qs, hstep⟩ := hm.peaceful.step hio hsrv
    obtain ⟨hatomic, hphase⟩ := hstep.relay h.manager 0
    refine { h with
      closeService := (Server.mgrStep_keepsAsking hsrv).service.trans h.closeService
      closeThread := (hstep.closeThread ?_).trans h.closeThread
      manager := hstep.inLoop h.manager h.closeService h.closeThread
      atomicClose := hatomic.trans h.atomicClose
      relay := (congrArg RelayPhase.serving hphase).trans h.relay }
    rintro rfl
    cases hu

theorem Up.relayStep {a : Relay.RelayAction} (h : s.Up) (hm : Models A own p s t)
    (hu : s.undisturbed (.relay a)) (hs : s.relayStep a = some s') : s'.Up := by
  obtain ⟨fd, qs, -, -, -, hU⟩ := hm.refines
  obtain ⟨r, puts, hr, rfl⟩ := relayStep_cases hs
  have hkind : ∀ m ∈ s.relay.outbound, m.kind ≠ .newConnection := fun m hmem =>
    (hU.items m (by simp [upItems, hmem])).2
  rw [h.closeService] at hr
  obtain ⟨hatomic, hphase⟩ := Relay.step_serving hkind (by rintro rfl; cases hu) hr
    h.atomicClose h.relay
  have hrelay : (s.server.relayMoved 0 r puts).relay 0 = r := by simp
  exact { h with
    atomicClose := (congrArg Relay.atomicClose hrelay).trans hatomic
    relay := (congrArg (·.phase.serving) hrelay).trans hphase }

theorem Up.remoteStep {a : Client.RemoteAction} (h : s.Up) (hm : Models A own p s t)
    (ht : s.Tidy) (hu : s.undisturbed (.remote a)) (hs : s.remoteStep a = some s') : s'.Up := by
  obtain ⟨c, hc, ⟨io, rfl, -, rfl⟩ | ⟨hio, rfl⟩⟩ := remoteStep_cases hs
  · cases Client.remoteStep_moves hc with
    | @relayIo mask _ events hp _ =>
      simp only [undisturbed, hp] at hu
      obtain ⟨hiff, hmask⟩ := s.client.remote.handleRelay_goesOn mask io
      have hgoes := hiff.mpr hu
      refine { h with
        close := by simp only [h.close, hgoes.2, Bool.or_false]
        registered := (congrArg Option.isSome (hmask hgoes)).trans h.registered
        remote := ?_ }
      simp only [hgoes.1]
      rfl
  · cases Client.remoteStep_moves hc with
    | leaves _ hclose => cases h.close.symm.trans hclose
    | relayIo => exact absurd rfl (hio _)
    | selects | wakeupRead | dispatched | breaks => exact { h with remote := rfl }
    | @takes msg recvq _ hg =>
      obtain ⟨ds, hds⟩ := ht.down
      have hport := hm.port
      rw [← hm.port_eq] at hport
      obtain ⟨q, qs, rfl, rfl, -⟩ := hds.takes ⟨Int.le_of_lt hport.1, hport.2⟩ hg
      have hitem := (hds.items q List.mem_cons_self).itemOf_frameOf
      simp only [Client.processMsg, hitem]
      exact { h with }
    | @batch left =>
      obtain ⟨fd, qs, -, -, -, hU⟩ := hm.refines
      have hq : ∀ q ∈ s.client.remote.toRemoteProxy, ItemOk p q ∧ q.kind ≠ .newConnection :=
        fun q hmem => hU.items q (by simp [upItems, hmem])
      obtain ⟨hphase, hmask⟩ := RemoteProxy.batchTurn_inLoop
        ⟨Int.le_of_lt hm.port.1, hm.port.2⟩ hq h.registered left
      exact { h with registered := hmask, remote := hphase }
    | joined hp =>
      have hloop := h.remote
      rw [hp] at hloop
      cases hloop

theorem Up.step {a : Action} (h : s.Up) (hm : Models A own p s t) (ht : s.Tidy)
    (hu : s.undisturbed a) (hs : System.step s a = some s') : s'.Up := by
  cases a with
  | mgr a => exact h.mgrStep hm hu hs
  | relay a => exact h.relayStep hm hu hs
  | remote a => exact h.remoteStep hm ht hu hs
  | proxy a =>
    obtain ⟨-, l, puts, hl, rfl⟩ := proxyStep_cases hs
    rw [h.close] at hl
    exact { h with proxy := LocalProxy.step_serving hl h.proxy }
  | serverShutdown | clientShutdown => cases hu

/-- And a disturbance always brings one of the threads down. -/
theorem Up.step_disturbed {a : Action} (h : s.Up) (hu : s.undisturbed a = false)
    (hs : System.step s a = some s') : ¬ s'.Up := by
  intro hup
  cases a with
  | mgr a =>
    obtain ⟨srv, hsrv, ⟨io, rfl, -, rfl⟩ | ⟨hio, rfl⟩⟩ := mgrStep_cases hs
    · cases Server.mgrStep_moves hsrv with
      | @clientIo mask events _ hp =>
        simp only [undisturbed, hp] at hu
        have hgoes : Manager.GoesOn (s.server.mgr.handleRelayClient mask io) := by
          refine ⟨?_, hup.closeThread⟩
          have hloop := hup.manager
          cases hraised : (s.server.mgr.handleRelayClient mask io).raised with
          | none => rfl
          | some e =>
            simp only [Server.withMgr, hraised] at hloop
            cases hloop
        rw [(Manager.handleRelayClient_goesOn h.closeThread mask io).mp hgoes] at hu
        cases hu
    · cases Server.mgrStep_moves hsrv with
      | clientIo => exact hio _ rfl
      | wakeupRead _ eof =>
        simp only [undisturbed, Bool.not_eq_false'] at hu
        have hclose := hup.closeThread
        simp [Server.withMgr, hu] at hclose
      | _ => cases hu
  | relay a =>
    obtain ⟨r, puts, hr, rfl⟩ := relayStep_cases hs
    have hrelay : (s.server.relayMoved 0 r puts).relay 0 = r := by simp
    have hatomic : r.atomicClose = false := hrelay ▸ hup.atomicClose
    cases Relay.step_moves hr with
    | wakeupRead _ eof =>
      simp only [undisturbed, Bool.not_eq_false'] at hu
      simp [hu] at hatomic
    | _ => cases hu
  | remote a =>
    obtain ⟨c, hc, ⟨io, rfl, -, rfl⟩ | ⟨hio, rfl⟩⟩ := remoteStep_cases hs
    · cases Client.remoteStep_moves hc with
      | @relayIo mask _ events hp _ =>
        simp only [undisturbed, hp] at hu
        have hgoes : RemoteProxy.GoesOn (s.client.remote.handleRelay mask io) := by
          refine ⟨?_, ((Bool.or_eq_false_iff ..).mp hup.close).2⟩
          have hloop := hup.remote
          cases hraised : (s.client.remote.handleRelay mask io).raised with
          | none => rfl
          | some e =>
            simp only [hraised] at hloop
            cases hloop
        rw [(RemoteProxy.handleRelay_goesOn mask io).1.mp hgoes] at hu
        cases hu
    · cases Client.remoteStep_moves hc with
      | relayIo => exact hio _ rfl
      | _ => cases hu
  | proxy a => cases hu
  | serverShutdown =>
    cases hs
    cases hup.closeService
  | clientShutdown =>
    cases hs
    cases hup.close

theorem Reachable.up (h : Reachable (fun s a => s.undisturbed a) s) : s.Up := by
  refine Transition.Reach.invariant_of
    (K := fun s => (∃ p t, Models (fun _ _ => True) False p s t) ∧ s.Tidy)
    (fun s hs => ⟨Reachable.models_any hs, Reachable.tidy hs⟩) ?_ ?_ h
  · rintro _ ⟨port, -, -, rfl⟩
    exact ⟨rfl, rfl, rfl, rfl, rfl, rfl, rfl, rfl, rfl⟩
  · rintro s a s' ⟨⟨p, t, hm⟩, ht⟩ hI hu hs
    exact hI.step hm ht hu hs

/-- **Only the management connection or a signal ends a session**: in every run in which neither
program is told to shut down and the management connection fails at neither end, no close event is
ever set, both management threads stay in their loops, and neither the relay nor the local proxy
begins its final clean-up, whatever external hosts and the local service do; and the first step of
another kind makes one of these false. An exception that ends the thread of the relay or of the
local proxy is not counted. -/
theorem session_stays_up (h : Reachable (fun s a => s.undisturbed a) s) :
    s.Up ∧ ∀ a s', step s a = some s' → (s'.Up ↔ s.undisturbed a = true) := by
  have hup := Reachable.up h
  obtain ⟨p, t, hm⟩ := Reachable.models_any h
  refine ⟨hup, fun a s' hs => ⟨fun hup' => ?_, fun hu => hup.step hm (Reachable.tidy h) hu hs⟩⟩
  by_contra hu
  exact hup.step_disturbed (Bool.not_eq_true _ ▸ hu) hs hup'

theorem session_stays_up_bothWays : ∃ s, run undisturbed Run.bothWays = some s ∧
    ((s.proxy.conns 0).sck.sent, (s.relay.conns 0).sck.sent) = ([1, 2], [3]) ∧ s.Up := by
  have hx : (run undisturbed Run.bothWays).map
      (fun s => ((s.proxy.conns 0).sck.sent, (s.relay.conns 0).sck.sent)) = some ([1, 2], [3]) := by
    decide +kernel
  obtain ⟨s, hs, hsent⟩ := Option.map_eq_some_iff.mp hx
  exact ⟨s, hs, hsent, (session_stays_up (Reachable.of_run (fun _ _ htest => htest) hs)).1⟩

end System
end
end PortPort
