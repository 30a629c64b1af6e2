import PortPort.Lib.Progress
import PortPort.Server.RelayTable

/-! # The end of a relay's thread

Once one of its close events is set, the thread of a relay takes a bounded number of further steps:
`Relay.togo` counts what is left of the events reported, of the drain and of the connections to be
cleaned up. -/

namespace PortPort
namespace Relay
variable {r r' : Relay}

/-- A bound on the steps that the thread takes when it is to close. A connection accepted on the way
has to be cleaned up as well. -/
def togo (r : Relay) : Nat :=
  match r.phase with
  | .start => r.connectionTable.size + 3
  | .top => r.connectionTable.size + 2
  | .dispatch events => 2 * events.length + r.connectionTable.size + 4
  | .drain => r.connectionTable.size + 3
  | .closing => r.connectionTable.size + 1
  | .closed | .crashed _ => 0

/-! ## No callback adds to the table but `accept_inbound_connection` -/

theorem modify_table {n : Nat} {events : Mask} (h : r.modify n events = some r') :
    r'.connectionTable = r.connectionTable := by
  simp only [modify, Option.ite_none_right_eq_some, Option.some.injEq] at h
  obtain ⟨-, rfl⟩ := h
  rfl

theorem cleanUpConnection_table (r : Relay) (addr : Peer) :
    (r.cleanUpConnection addr).state.connectionTable = AList.erase addr r.connectionTable := by
  unfold cleanUpConnection
  split
  · exact (Dict.erase_of_lookup_eq_none ‹_›).symm
  · simp only
    split
    · rfl
    · rename_i hr
      simp only [unregister, Option.ite_none_right_eq_some, Option.some.injEq] at hr
      obtain ⟨-, rfl⟩ := hr
      rfl

/-- The table has lost one address at most. -/
def Loses (r r' : Relay) : Prop :=
  r'.connectionTable = r.connectionTable ∨
    ∃ addr, r'.connectionTable = AList.erase addr r.connectionTable

theorem Loses.size (h : Loses r r') : r'.connectionTable.size ≤ r.connectionTable.size := by
  rcases h with h | ⟨addr, h⟩
  · rw [h]
  · rw [h]
    exact Dict.size_erase_le ..

theorem Loses.cleanUp {addr : Peer} (h : r'.connectionTable = r.connectionTable) :
    Loses r (r'.cleanUpConnection addr).state :=
  .inr ⟨addr, by rw [cleanUpConnection_table, h]⟩

theorem handleRead_loses {sock con : Nat} {addr : Peer} (recv : Except OSError Bytes)
    (h : r'.connectionTable = r.connectionTable) :
    Loses r (r'.handleRead sock con addr recv).state := by
  unfold handleRead
  split
  · simp only
    split
    · exact .cleanUp h
    · exact .inl h
  · exact .cleanUp h
  · exact .cleanUp h
  · exact .inl h

theorem handleWrite_loses {sock con : Nat} {addr : Peer} {send : Except OSError Nat}
    {x : Relay ⊕ Outcome Relay} (h : r.handleWrite sock con addr send = x) :
    x.elim (fun r' => r'.connectionTable = r.connectionTable) fun out => Loses r out.state := by
  unfold handleWrite at h
  split at h
  · simp only at h
    split at h
    · split at h
      · rename_i hr
        cases h
        have htable := modify_table hr
        exact htable
      · cases h
        exact .inl rfl
    · cases h
      exact rfl
  · cases h
    exact .cleanUp rfl
  · cases h
    exact .cleanUp rfl
  · cases h
    exact rfl
  · cases h
    exact .inl rfl

theorem handleSocket_loses (r : Relay) (sock : Nat) (mask : Mask) (io : SocketIO) :
    Loses r (r.handleSocket sock mask io).state := by
  unfold handleSocket
  split
  · exact .inl rfl
  simp only
  split
  · exact .inl rfl
  rename_i con _
  have hread {r' : Relay} (h : r'.connectionTable = r.connectionTable) :
      Loses r (if mask.read = true then r'.handleRead sock con (r.conns sock).peer io.recv
        else { state := r' } : Outcome Relay).state := by
    split
    · exact handleRead_loses _ h
    · exact .inl h
  split
  · rename_i out hw
    split at hw
    · exact handleWrite_loses hw
    · cases hw
  · rename_i r' hw
    split at hw
    · exact hread (handleWrite_loses hw)
    · cases hw
      exact hread rfl

/-! ## The count -/

theorem togo_afterCallback (out : Outcome Relay) (events : List (RelayKey × Mask)) :
    (afterCallback out events).togo ≤ 2 * events.length + out.state.connectionTable.size + 4 := by
  unfold afterCallback
  split
  · exact Nat.le_refl _
  · exact Nat.zero_le _

/-- Every step of a thread that is to close brings it nearer to its end. -/
theorem step_togo {closeReq : Bool} {a : RelayAction} {puts : List (Nat × QueuedRelayMessage)}
    (hc : (closeReq || r.atomicClose) = true) (h : r.step closeReq a = some (r', puts)) :
    r'.togo < r.togo := by
  have hcallback {key : RelayKey × Mask} {events : List (RelayKey × Mask)} {out : Outcome Relay}
      (hp : r.phase = .dispatch (key :: events))
      (hsize : out.state.connectionTable.size ≤ r.connectionTable.size + 1) :
      (afterCallback out events).togo < r.togo := by
    have hle := togo_afterCallback out events
    have htogo : r.togo = 2 * (events.length + 1) + r.connectionTable.size + 4 := by
      simp only [togo, hp, List.length_cons]
    omega
  cases step_moves h with
  | listens hp | leaves hp | dispatched hp | drained hp | closes hp =>
    simp [togo, hp]
  | listenFails hp | acceptFails hp => simp [togo, hp]
  | selects _ hnot => cases hcr : closeReq <;> simp_all
  | handles _ hnot => simp [hnot] at hc
  | accepts hp => exact hcallback hp (Dict.size_set_le ..)
  | io hp => exact hcallback hp ((handleSocket_loses ..).size.trans (Nat.le_succ _))
  | wakeupRead hp =>
    simp only [togo, hp, List.length_cons]
    omega
  | @cleansUp addr hp ha =>
    obtain ⟨n, hn⟩ := Dict.first?_mem ha
    have herase := Dict.size_erase hn
    rw [← cleanUpConnection_table] at herase
    split
    · have hphase : (r.cleanUpConnection addr).state.phase = .closing := by
        obtain ⟨_, _, _, _, _, hr⟩ := cleanUpConnection_serves r addr
        rw [hr, hp]
      simp only [togo, hp, hphase]
      omega
    · simp [togo, hp]

/-- A thread that has not ended is able to take a step, whatever other sockets listen. -/
theorem exists_step (h : r.togo ≠ 0) (closeReq : Bool) :
    ∃ a, (r.step closeReq a).isSome ∧ ∀ result, a ≠ .listen (.ok result) := by
  cases hp : r.phase with
  | start => exact ⟨.listen (.error .blockingIo), by simp [step, hp], by simp⟩
  | top =>
    by_cases hc : (closeReq || r.atomicClose) = true
    · exact ⟨.turn, by simp only [step, hp, hc, if_true, Option.isSome_some], by simp⟩
    · simp only [Bool.or_eq_true, not_or, Bool.not_eq_true] at hc
      exact ⟨.select [], by simp [step, hp, hc, selectable], by simp⟩
  | dispatch events =>
    cases events with
    | nil => exact ⟨.turn, by simp [step, hp], by simp⟩
    | cons event events =>
      obtain ⟨key, mask⟩ := event
      cases key with
      | listening => exact ⟨.accept (.error .blockingIo), by simp [step, hp], by simp⟩
      | wakeup => exact ⟨.wakeupRead false, by simp [step, hp], by simp⟩
      | conn n =>
        have hio : r.ioAllowed n ⟨.error .blockingIo, .error .blockingIo, .error .blockingIo⟩ := by
          unfold ioAllowed sendAllowed recvAllowed
          cases r.connectionTable.lookup (r.conns n).peer <;> rfl
        exact ⟨.io ⟨.error .blockingIo, .error .blockingIo, .error .blockingIo⟩,
          by simp [step, hp, hio], by simp⟩
  | drain =>
    refine ⟨.turn, ?_, by simp⟩
    simp only [step, hp]
    split
    · rfl
    · split <;> rfl
  | closing =>
    refine ⟨.turn, ?_, by simp⟩
    simp only [step, hp]
    split <;> rfl
  | closed => simp [togo, hp] at h
  | crashed e => simp [togo, hp] at h

theorem step_ended (h : r.togo = 0) (closeReq : Bool) (a : RelayAction) :
    r.step closeReq a = none := by
  cases hp : r.phase with
  | closed | crashed => simp only [step, hp]
  | _ => simp [togo, hp] at h

end Relay

/-! ## Among the other threads -/

namespace Server
variable {s s' : Server}

theorem joined_iff_togo {rid : Nat} : s.joined rid = true ↔ (s.relay rid).togo = 0 := by
  cases hp : (s.relay rid).phase <;> simp [joined, Relay.togo, hp]

/-- The thread of a relay that has not ended is able to take a step. -/
theorem exists_relayStep {rid : Nat} (hlt : rid < s.nrelays) (h : (s.relay rid).togo ≠ 0) :
    ∃ a x, s.relayStep rid a = some x := by
  obtain ⟨a, ha, hlisten⟩ := Relay.exists_step h s.closeService
  obtain ⟨⟨r, puts⟩, hr⟩ := Option.isSome_iff_exists.mp ha
  have hblocked : s.listenBlocked rid a = false := by
    unfold listenBlocked
    split
    · exact absurd rfl (hlisten _)
    · rfl
  refine ⟨a, (s.relayMoved rid r puts, puts), ?_⟩
  simp only [relayStep, hlt, hblocked, hr, decide_true, Bool.not_false, Bool.and_true, if_true,
    Option.map_some]

/-- The close event of the service stays as it is, and the one of a relay is never cleared. -/
structure KeepsAsking (s s' : Server) : Prop where
  service : s'.closeService = s.closeService
  relay : ∀ rid < s.nrelays, (s.relay rid).atomicClose = true → (s'.relay rid).atomicClose = true

theorem KeepsAsking.of_relay (hs : s'.closeService = s.closeService) (hr : s'.relay = s.relay) :
    KeepsAsking s s' := ⟨hs, fun _ _ h => hr ▸ h⟩

theorem Replies.keepsAsking {fs : List PortPortMessage} (h : Replies s fs s') :
    KeepsAsking s s' := by
  cases h with
  | sends => exact .of_relay rfl rfl
  | breaks => exact .of_relay rfl rfl

theorem KeepsAsking.setRelay {rid : Nat} {r : Relay} (hs : s'.closeService = s.closeService)
    (hr : s'.relay = Function.update s.relay rid r)
    (ha : (s.relay rid).atomicClose = true → r.atomicClose = true) : KeepsAsking s s' := by
  refine ⟨hs, fun i _ hi => ?_⟩
  by_cases hir : i = rid
  · subst hir
    rw [hr, Function.update_self]
    exact ha hi
  · rw [hr, Function.update_of_ne hir]
    exact hi

theorem mgrStep_keepsAsking {a : ManagerAction} (h : s.mgrStep a = some s') :
    KeepsAsking s s' := by
  cases mgrStep_moves h with
  | takes _ _ _ hp =>
    cases hp with
    | creates =>
      refine ⟨rfl, fun rid hr ha => ?_⟩
      exact (congrArg Relay.atomicClose (Function.update_of_ne (Nat.ne_of_lt hr) ..)).trans ha
    | enqueues => exact .setRelay rfl rfl id
    | joins => exact .setRelay rfl rfl fun _ => rfl
    | ignores => exact .of_relay rfl rfl
    | replies hr =>
      have hk := hr.keepsAsking
      exact ⟨hk.service, hk.relay⟩
  | refuses _ _ hr => exact hr.keepsAsking
  | announces _ hr => exact hr.keepsAsking
  | destroys _ _ hr =>
    have hk := hr.keepsAsking
    exact ⟨hk.service, hk.relay⟩
  | closes => exact .setRelay rfl rfl fun _ => rfl
  | _ => exact .of_relay rfl rfl

end Server

namespace ManagerRun
open Server (ManagerAction KeepsAsking)
variable {s s' : ManagerRun} {e : Event} {rid : Nat}

/-- The threads of a management connection. -/
inductive Thread
  | manager
  | relay (rid : Nat)

/-- The steps of a thread. -/
def Thread.Own : Thread → Event → Prop
  | .manager, .thread _ => True
  | .relay rid, .relay i _ => i = rid
  | _, _ => False

/-- The thread of the relay finds a close event set. -/
def ToClose (s : ManagerRun) (rid : Nat) : Prop :=
  (s.server.closeService || (s.server.relay rid).atomicClose) = true

theorem step_closeService (h : s.server.closeService = true) (hs : step s e = some s') :
    s'.server.closeService = true := by
  cases e with
  | thread a =>
    obtain ⟨server, hserver, rfl⟩ := Option.map_eq_some_iff.mp hs
    exact (Server.mgrStep_keepsAsking hserver).service.trans h
  | relay rid a =>
    obtain ⟨⟨server, puts⟩, hserver, rfl⟩ := Option.map_eq_some_iff.mp hs
    obtain ⟨-, -, r, -, rfl⟩ := Server.relayStep_cases hserver
    exact h
  | wakeup =>
    simp only [step, Option.ite_none_right_eq_some, Option.some.injEq] at hs
    obtain ⟨-, rfl⟩ := hs
    exact h
  | shutdown =>
    cases hs
    rfl

theorem step_atomicClose (hlt : rid < s.server.nrelays)
    (h : (s.server.relay rid).atomicClose = true) (hs : step s e = some s') :
    (s'.server.relay rid).atomicClose = true := by
  by_cases he : ∃ a, e = .thread a
  · obtain ⟨a, rfl⟩ := he
    obtain ⟨server, hserver, rfl⟩ := Option.map_eq_some_iff.mp hs
    exact (Server.mgrStep_keepsAsking hserver).relay rid hlt h
  · rcases step_relay (fun a ha => he ⟨a, ha⟩) hs rid with hr | ⟨a, hr⟩
    · exact hr ▸ h
    · exact hr.atomicClose h

theorem ToClose.step (hlt : rid < s.server.nrelays) (h : ToClose s rid)
    (hs : ManagerRun.step s e = some s') : ToClose s' rid := by
  rcases (Bool.or_eq_true ..).mp h with hc | ha
  · exact (Bool.or_eq_true ..).mpr (.inl (step_closeService hc hs))
  · exact (Bool.or_eq_true ..).mpr (.inr (step_atomicClose hlt ha hs))

/-- Only its own steps bring the thread of a relay nearer to its end. -/
theorem togo_other (hlt : rid < s.server.nrelays) (hs : step s e = some s')
    (he : ¬ (Thread.relay rid).Own e) : (s'.server.relay rid).togo = (s.server.relay rid).togo := by
  cases e with
  | thread a =>
    obtain ⟨server, hserver, rfl⟩ := Option.map_eq_some_iff.mp hs
    obtain ⟨_, _, _, _, hr⟩ := (Server.mgrStep_relaysKept hserver).2 rid hlt
    exact (congrArg Relay.togo hr).trans rfl
  | relay i a =>
    obtain ⟨⟨server, puts⟩, hserver, rfl⟩ := Option.map_eq_some_iff.mp hs
    obtain ⟨-, -, r, -, rfl⟩ := Server.relayStep_cases hserver
    have hne : rid ≠ i := fun h => he h.symm
    simp [setWakeup, hne]
  | wakeup =>
    simp only [step, Option.ite_none_right_eq_some, Option.some.injEq] at hs
    obtain ⟨-, rfl⟩ := hs
    rfl
  | shutdown =>
    cases hs
    rfl

theorem togo_own (h : ToClose s rid) (hs : step s e = some s') (he : (Thread.relay rid).Own e) :
    (s'.server.relay rid).togo < (s.server.relay rid).togo := by
  cases e with
  | relay i a =>
    obtain rfl : i = rid := he
    obtain ⟨⟨server, puts⟩, hserver, rfl⟩ := Option.map_eq_some_iff.mp hs
    obtain ⟨-, -, r, hr, rfl⟩ := Server.relayStep_cases hserver
    simpa [setWakeup] using Relay.step_togo h hr
  | _ => cases he

theorem relay_enabled (hlt : rid < s.server.nrelays) (h : (s.server.relay rid).togo ≠ 0) :
    Transition.Enabled (Transition.Fires step) (Thread.relay rid).Own s := by
  obtain ⟨a, x, hstep⟩ := Server.exists_relayStep hlt h
  exact ⟨.relay rid a, _, rfl, Option.map_eq_some_iff.mpr ⟨x, hstep, rfl⟩⟩

/-- The thread of a relay that is to close ends. -/
theorem relay_progress : Transition.Progress (Transition.Fires step) Thread.Own
    (fun s => rid < s.server.nrelays ∧ ToClose s rid) (fun s => (s.server.relay rid).togo = 0)
    (fun s => (s.server.relay rid).togo) fun _ => .relay rid where
  enabled _ hK hg := relay_enabled hK.1 hg
  helps _ _ _ hK _ hs he :=
    .inr ⟨⟨hK.1.trans_le (step_aged hs).nrelays, hK.2.step hK.1 hs⟩, togo_own hK.2 hs he⟩
  waits _ _ _ hK _ hs he :=
    .inr ⟨⟨hK.1.trans_le (step_aged hs).nrelays, hK.2.step hK.1 hs⟩,
      .inr ⟨togo_other hK.1 hs he, rfl⟩⟩

end ManagerRun
end PortPort
