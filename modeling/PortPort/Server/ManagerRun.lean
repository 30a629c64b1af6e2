import PortPort.Lib.Transition
import PortPort.Common.CodecLemmas
import PortPort.Server.ManagerMoves
import PortPort.Server.RelaySocket

/-! # The management thread among the relays

The moves of the relays come between those of the management thread. A call of `enqueue_inbound`
is two steps, the `put`, which is part of the relay's move, and its `wakeup_callback`. -/

namespace PortPort
open Server (ManagerAction)
open Relay (RelayAction BindResult)

structure ManagerRun where
  server : Server
  /-- the calls of `enqueue_inbound` that are between their `put` and their `wakeup_callback` -/
  putting : Nat := 0

namespace ManagerRun

inductive Event
  | thread (a : ManagerAction)
  | relay (rid : Nat) (a : RelayAction)
  | wakeup
  /-- the service's close event is set -/
  | shutdown

/-- The wakeup socket of the management thread holds an unread byte, or holds none. -/
def setWakeup (server : Server) (wakeupPending : Bool) : Server :=
  server.withMgr { server.mgr with wakeupPending }

def step (s : ManagerRun) : Event → Option ManagerRun
  | .thread a => (s.server.mgrStep a).map fun server => { s with server }
  | .relay rid a =>
    (s.server.relayStep rid a).map fun (server, puts) =>
      { server := setWakeup server s.server.mgr.wakeupPending
        putting := s.putting + puts.length }
  | .wakeup =>
    if 0 < s.putting then
      some { server := setWakeup s.server true, putting := s.putting - 1 }
    else none
  | .shutdown => some { s with server := { s.server with closeService := true } }

/-- The thread has registered its sockets and is about to enter the loop. -/
def start (portRange : Option (Int × Int)) : ManagerRun where
  server := { mgr := {}, relay := fun _ => { identifyingPort := 0 }, nrelays := 0, portRange }

def Init (s : ManagerRun) : Prop := ∃ portRange, s = start portRange

abbrev Reachable (P : ManagerRun → Event → Prop) : ManagerRun → Prop :=
  Transition.Reach (Transition.Fires step) P Init

/-- What an event does to the manager: a step of its thread, or a message that a relay puts on its
queue, or a byte in its wakeup socket. -/
theorem step_cases {s s' : ManagerRun} {e : Event} (h : step s e = some s') :
    (∃ a, e = .thread a ∧ s.server.mgrStep a = some s'.server ∧ s'.putting = s.putting) ∨
    (∃ rid a, e = .relay rid a) ∧ (∃ puts, s'.server.mgr =
      { s.server.mgr with inboundData := s.server.mgr.inboundData ++ puts } ∧
        s'.putting = s.putting + puts.length) ∨
    e = .wakeup ∧ s'.server.mgr = { s.server.mgr with wakeupPending := true } ∨
    e = .shutdown ∧ s'.server.mgr = s.server.mgr ∧ s'.server.closeService = true := by
  cases e with
  | thread a =>
    obtain ⟨server, hserver, rfl⟩ := Option.map_eq_some_iff.mp h
    exact .inl ⟨a, rfl, hserver, rfl⟩
  | relay rid a =>
    obtain ⟨⟨server, puts⟩, hserver, rfl⟩ := Option.map_eq_some_iff.mp h
    obtain ⟨-, -, r, -, rfl⟩ := Server.relayStep_cases hserver
    refine .inr (.inl ⟨⟨rid, a, rfl⟩, puts.map Prod.snd, rfl, ?_⟩)
    simp
  | wakeup =>
    simp only [step, Option.ite_none_right_eq_some, Option.some.injEq] at h
    obtain ⟨-, rfl⟩ := h
    exact .inr (.inr (.inl ⟨rfl, rfl⟩))
  | shutdown =>
    cases h
    exact .inr (.inr (.inr ⟨rfl, rfl, rfl⟩))

/-- The other threads do no more to the manager than to put items on its queue and wake it up. -/
theorem step_mgr {s s' : ManagerRun} {e : Event} (h : step s e = some s') :
    (∃ a, s.server.mgrStep a = some s'.server) ∨
    ∃ inboundData wakeupPending,
      s'.server.mgr = { s.server.mgr with inboundData, wakeupPending } := by
  rcases step_cases h with ⟨a, -, ha, -⟩ | ⟨-, puts, hm, -⟩ | ⟨-, hm⟩ | ⟨-, hm, -⟩
  · exact .inl ⟨a, ha⟩
  · exact .inr ⟨_, _, hm⟩
  · exact .inr ⟨_, _, hm⟩
  · exact .inr ⟨_, _, hm⟩

theorem step_others {s s' : ManagerRun} {e : Event} (he : ∀ a, e ≠ .thread a)
    (h : step s e = some s') : ∃ inboundData wakeupPending,
      s'.server.mgr = { s.server.mgr with inboundData, wakeupPending } := by
  rcases step_cases h with ⟨a, rfl, -⟩ | ⟨-, puts, hm, -⟩ | ⟨-, hm⟩ | ⟨-, hm, -⟩
  · exact absurd rfl (he a)
  · exact ⟨_, _, hm⟩
  · exact ⟨_, _, hm⟩
  · exact ⟨_, _, hm⟩

/-- The other threads leave a relay as it is or take a step of its thread. -/
theorem step_relay {s s' : ManagerRun} {e : Event} (he : ∀ a, e ≠ .thread a)
    (h : step s e = some s') (i : Nat) : s'.server.relay i = s.server.relay i ∨
      ∃ a, Relay.SocketStep (s.server.relay i) a (s'.server.relay i) := by
  cases e with
  | thread a => exact absurd rfl (he a)
  | relay rid a =>
    obtain ⟨⟨server, puts⟩, hserver, rfl⟩ := Option.map_eq_some_iff.mp h
    obtain ⟨-, -, r, hr, rfl⟩ := Server.relayStep_cases hserver
    by_cases hi : i = rid
    · subst hi
      refine .inr ⟨a, ?_⟩
      simpa [setWakeup] using Relay.step_socket hr
    · exact .inl (by simp [setWakeup, hi])
  | wakeup =>
    simp only [step, Option.ite_none_right_eq_some, Option.some.injEq] at h
    obtain ⟨-, rfl⟩ := h
    exact .inl rfl
  | shutdown =>
    cases h
    exact .inl rfl

theorem step_ports {s s' : ManagerRun} {e : Event} (he : ∀ a, e ≠ .thread a)
    (h : step s e = some s') (i : Nat) :
    (s'.server.relay i).identifyingPort = (s.server.relay i).identifyingPort := by
  rcases step_relay he h i with hr | ⟨a, hr⟩
  · rw [hr]
  · exact hr.port

/-- The execution of a list of events from the start. -/
def run (test : ManagerRun → Event → Bool) (es : List Event) : Option ManagerRun :=
  Transition.exec step test (start none) es

theorem Reachable.of_run {P : ManagerRun → Event → Prop} {test : ManagerRun → Event → Bool}
    (htest : ∀ s e, test s e → P s e) {es : List Event} {s : ManagerRun}
    (h : run test es = some s) : Reachable P s :=
  .exec htest (.init ⟨none, rfl⟩) h

end ManagerRun

/-! ## Callbacks -/

/-- A callback on the management socket: `sendq` loses a beginning, `recvq` gains an end. -/
structure Manager.Moved (m m' : Manager) : Prop where
  sendq : m'.sendq <:+ m.sendq
  recvq : m.recvq <+: m'.recvq
  relays : m'.relays = m.relays
  inboundData : m'.inboundData = m.inboundData
  sendLog : m'.sendLog = m.sendLog
  phase : m'.phase = m.phase

theorem Manager.Moved.refl (m : Manager) : Manager.Moved m m :=
  ⟨List.suffix_refl _, List.prefix_refl _, rfl, rfl, rfl, rfl⟩

theorem Manager.Moved.trans {m m' m'' : Manager} (h : Manager.Moved m m')
    (h' : Manager.Moved m' m'') : Manager.Moved m m'' :=
  ⟨h'.sendq.trans h.sendq, h.recvq.trans h'.recvq, h'.relays.trans h.relays,
    h'.inboundData.trans h.inboundData, h'.sendLog.trans h.sendLog, h'.phase.trans h.phase⟩

theorem Manager.handleWrite_moved (m : Manager) (send : Except OSError Nat) :
    Manager.Moved m (m.handleWrite send).state := by
  have hflag (m : Manager) (sent : Outcome Manager) (h : Manager.Moved m sent.state) :
      Manager.Moved m (if sent.raised = none ∧ sent.state.sendq = [] then
        { state := { sent.state with writeEnabled := false, mask := .r } }
        else sent : Outcome _).state := by
    split
    · exact ⟨h.sendq, h.recvq, h.relays, h.inboundData, h.sendLog, h.phase⟩
    · exact h
  unfold Manager.handleWrite
  apply hflag
  cases send with
  | ok len => exact ⟨List.drop_suffix .., List.prefix_refl _, rfl, rfl, rfl, rfl⟩
  | error e => cases e <;> exact ⟨List.suffix_refl _, List.prefix_refl _, rfl, rfl, rfl, rfl⟩

theorem Manager.handleWrite_recvq {m : Manager} (send : Except OSError Nat) :
    (m.handleWrite send).state.recvq = m.recvq := by
  have hflag (sent : Outcome Manager) (h : sent.state.recvq = m.recvq) :
      (if sent.raised = none ∧ sent.state.sendq = [] then
        { state := { sent.state with writeEnabled := false, mask := .r } }
      else sent : Outcome Manager).state.recvq = m.recvq := by
    split
    · exact h
    · exact h
  unfold Manager.handleWrite
  apply hflag
  cases send with
  | ok => rfl
  | error e => cases e <;> rfl

theorem Manager.handleRead_moved (m : Manager) (recv : Except OSError Bytes) :
    Manager.Moved m (m.handleRead recv).state := by
  cases recv with
  | ok data => exact ⟨List.suffix_refl _, List.prefix_append .., rfl, rfl, rfl, rfl⟩
  | error e => cases e <;> exact ⟨List.suffix_refl _, List.prefix_refl _, rfl, rfl, rfl, rfl⟩

theorem Manager.handleRelayClient_moved (m : Manager) (mask : Mask) (io : ClientIO) :
    Manager.Moved m (m.handleRelayClient mask io).state := by
  unfold Manager.handleRelayClient
  by_cases hw : (mask.write && m.sendq ≠ [])
  · simp only [if_pos hw]
    split
    · exact (m.handleWrite_moved _).trans (Manager.handleRead_moved ..)
    · exact m.handleWrite_moved _
  · simp only [if_neg hw]
    split
    · exact Manager.handleRead_moved ..
    · exact .refl m

/-! ## Write interest follows the send queue -/

namespace Manager

/-- The socket is registered for write events exactly while `write_enabled` is set, and this is so
exactly while bytes wait in `sendq`. -/
structure Armed (m : Manager) : Prop where
  mask : m.mask = if m.writeEnabled then .rw else .r
  flag : m.writeEnabled = true ↔ m.sendq ≠ []

variable {m m' : Manager}

theorem Armed.addToSendq (h : m.Armed) (data : Bytes) : (m.addToSendq data).Armed := by
  unfold Manager.addToSendq
  by_cases hw : m.writeEnabled = true
  · have hq := h.flag.mp hw
    refine ⟨?_, ?_⟩
    · simpa [hw] using h.mask
    · simp [hw, hq]
  · have hq : m.sendq = [] := not_not.mp (mt h.flag.mpr hw)
    simp only [Bool.not_eq_true] at hw
    by_cases hd : data = []
    · refine ⟨?_, ?_⟩
      · simpa [hw, hq, hd] using h.mask
      · simp [hw, hq, hd]
    · exact ⟨by simp [hw, hq, hd], by simp [hw, hq, hd]⟩

theorem Armed.send (h : m.Armed) {msg : PortPortMessage} (hs : m.send msg = .ok m') :
    m'.Armed := by
  obtain ⟨data, -, rfl⟩ := send_eq hs
  exact { h.addToSendq data with }

/-- A message sent leaves bytes to be sent. -/
theorem send_ne_nil {msg : PortPortMessage} (hs : m.send msg = .ok m') : m'.sendq ≠ [] := by
  obtain ⟨data, hd, rfl⟩ := send_eq hs
  unfold Manager.addToSendq
  simp only
  split <;> simp [hd]

theorem Armed.handleWrite (h : m.Armed) (hq : m.sendq ≠ []) (send : Except OSError Nat) :
    (m.handleWrite send).state.Armed := by
  have hw := h.flag.mpr hq
  cases send with
  | ok len =>
    unfold Manager.handleWrite
    by_cases hd : m.sendq.drop len = []
    · exact ⟨by simp [hd], by simp [hd]⟩
    · exact ⟨by simpa [hd] using h.mask, by simpa [hd] using hw⟩
  | error e =>
    cases e
    all_goals
      refine ⟨?_, ?_⟩
      · simpa [Manager.handleWrite, hq] using h.mask
      · simpa [Manager.handleWrite, hq] using hw

theorem Armed.handleRead (h : m.Armed) (recv : Except OSError Bytes) :
    (m.handleRead recv).state.Armed := by
  cases recv with
  | ok data => exact { h with }
  | error e => cases e <;> exact { h with }

theorem Armed.handleRelayClient (h : m.Armed) (mask : Mask) (io : ClientIO) :
    (m.handleRelayClient mask io).state.Armed := by
  have hread {out : Outcome Manager} (h : out.state.Armed) :
      (if out.raised = none ∧ mask.read then out.state.handleRead io.recv
        else out : Outcome Manager).state.Armed := by
    split
    · exact h.handleRead io.recv
    · exact h
  apply hread
  split
  · rename_i hw
    apply h.handleWrite
    simp only [Bool.and_eq_true, decide_eq_true_eq] at hw
    exact hw.2
  · exact h

theorem Drains.armed {left : Nat} (hd : m.Drains left m') (h : m.Armed) : m'.Armed := by
  cases hd with
  | ends => exact { h with }
  | @sends q items m' hl hi hm =>
    have hpop : ({ m with inboundData := items } : Manager).Armed := { h with }
    exact { hpop.send hm with }
  | fails => exact { h with }

end Manager

namespace Server
variable {s s' : Server}

theorem Replies.armed {fs : List PortPortMessage} (hr : Replies s fs s') (h : s.mgr.Armed) :
    s'.mgr.Armed := by
  cases hr with
  | sends hm => exact { h.send hm with }
  | breaks => exact { h with }

theorem mgrStep_armed (h : s.mgr.Armed) {a : ManagerAction} (hs : s.mgrStep a = some s') :
    s'.mgr.Armed := by
  cases mgrStep_moves hs with
  | clientIo => exact { h.handleRelayClient _ _ with }
  | takes _ _ _ hp =>
    cases hp with
    | replies hr => exact hr.armed { h with }
    | _ => exact { h with }
  | refuses _ _ hr => exact hr.armed h
  | announces _ hr => exact hr.armed h
  | destroys _ _ hr => exact hr.armed { h with }
  | drains => exact (s.mgr.inboundTurn_drains _).armed h
  | _ => exact { h with }

end Server

namespace ManagerRun

theorem Reachable.armed {P : ManagerRun → Event → Prop} {s : ManagerRun} (h : Reachable P s) :
    s.server.mgr.Armed := by
  apply h.invariant (J := fun s => s.server.mgr.Armed)
  · rintro _ ⟨portRange, rfl⟩
    exact ⟨rfl, by simp [start]⟩
  · intro s e s' hI hP hs
    rcases step_cases hs with ⟨a, -, ha, -⟩ | ⟨-, puts, hm, -⟩ | ⟨-, hm⟩ | ⟨-, hm, -⟩
    · exact Server.mgrStep_armed hI ha
    · rw [hm]
      exact { hI with }
    · rw [hm]
      exact { hI with }
    · rw [hm]
      exact hI

end ManagerRun
end PortPort
