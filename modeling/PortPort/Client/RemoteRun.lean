import PortPort.Lib.Transition
import PortPort.Common.CodecLemmas
import PortPort.Client.RemoteProxy

/-! # The remote proxy thread beside the local proxy

The moves of the local proxy come between those of the remote proxy thread. A `put` on
`to_remote_proxy`, which is part of the local proxy's move, and the `wakeup_remote_proxy` behind it
are two steps. -/

namespace PortPort
open Client (RemoteAction)
open LocalProxy (LocalAction)

structure RemoteRun where
  client : Client
  /-- the messages put on `to_remote_proxy` whose `wakeup_remote_proxy` is still to come -/
  putting : Nat := 0

namespace RemoteRun

inductive Event
  | thread (a : RemoteAction)
  | proxy (a : LocalAction)
  | wakeup
  /-- the close event is set -/
  | shutdown

/-- The wakeup socket of the remote proxy thread holds an unread byte, or holds none. -/
def setWakeup (client : Client) (wakeupPending : Bool) : Client :=
  { client with remote := { client.remote with wakeupPending } }

def step (s : RemoteRun) : Event → Option RemoteRun
  | .thread a => (s.client.remoteStep a).map fun client => { s with client }
  | .proxy a =>
    (s.client.proxyStep a).map fun (client, puts) =>
      { client := setWakeup client s.client.remote.wakeupPending
        putting := s.putting + puts.length }
  | .wakeup =>
    if 0 < s.putting then some { client := setWakeup s.client true, putting := s.putting - 1 }
    else none
  | .shutdown => some { s with client := { s.client with close := true } }

/-- The handshake is over, and the thread is about to enter the loop. -/
def start (remotePort : Int) : RemoteRun where
  client := { remote := {}, proxy := { remotePort } }

def Init (s : RemoteRun) : Prop := ∃ remotePort, s = start remotePort

abbrev Reachable (P : RemoteRun → Event → Prop) : RemoteRun → Prop :=
  Transition.Reach (Transition.Fires step) P Init

/-- What an event does to the remote proxy: a step of its thread, or a message that the local proxy
puts on its queue, or a byte in its wakeup socket. -/
theorem step_cases {s s' : RemoteRun} {e : Event} (h : step s e = some s') :
    (∃ a, e = .thread a ∧ s.client.remoteStep a = some s'.client ∧ s'.putting = s.putting) ∨
    (∃ a, e = .proxy a) ∧ s'.client.close = s.client.close ∧ (∃ puts, s'.client.remote =
      { s.client.remote with toRemoteProxy := s.client.remote.toRemoteProxy ++ puts } ∧
        s'.putting = s.putting + puts.length) ∨
    e = .wakeup ∧ s'.client.close = s.client.close ∧
      s'.client.remote = { s.client.remote with wakeupPending := true } ∨
    e = .shutdown ∧ s' = { s with client := { s.client with close := true } } := by
  cases e with
  | thread a =>
    obtain ⟨client, hclient, rfl⟩ := Option.map_eq_some_iff.mp h
    exact .inl ⟨a, rfl, hclient, rfl⟩
  | proxy a =>
    obtain ⟨⟨client, puts⟩, hclient, rfl⟩ := Option.map_eq_some_iff.mp h
    obtain ⟨l, -, rfl⟩ := Client.proxyStep_cases hclient
    refine .inr (.inl ⟨⟨a, rfl⟩, rfl, puts.map Prod.snd, rfl, ?_⟩)
    simp
  | wakeup =>
    simp only [step, Option.ite_none_right_eq_some, Option.some.injEq] at h
    obtain ⟨-, rfl⟩ := h
    exact .inr (.inr (.inl ⟨rfl, rfl, rfl⟩))
  | shutdown =>
    cases h
    exact .inr (.inr (.inr ⟨rfl, rfl⟩))

/-- The execution of a list of events from the start. -/
def run (test : RemoteRun → Event → Bool) (es : List Event) : Option RemoteRun :=
  Transition.exec step test (start 4000) es

theorem Reachable.of_run {P : RemoteRun → Event → Prop} {test : RemoteRun → Event → Bool}
    (htest : ∀ s e, test s e → P s e) {es : List Event} {s : RemoteRun}
    (h : run test es = some s) : Reachable P s :=
  .exec htest (.init ⟨4000, rfl⟩) h

end RemoteRun

/-! ## Write interest follows the send queue -/

namespace RemoteProxy

/-- The socket is registered for write events exactly while `write_enabled` is set, which it is
while bytes wait in `sendq`. -/
structure Armed (c : RemoteProxy) : Prop where
  mask : ∀ m, c.mask = some m → m = if c.writeEnabled then .rw else .r
  flag : c.sendq ≠ [] → c.writeEnabled = true

variable {c : RemoteProxy}

theorem Armed.drop (h : c.Armed) : c.drop.Armed where
  mask := by simp [RemoteProxy.drop]
  flag := h.flag

theorem Armed.handleWrite (h : c.Armed) (send : Except OSError Nat) :
    (c.handleWrite send).state.Armed := by
  cases send with
  | ok len =>
    refine { h with flag := fun hq => h.flag fun hnil => hq ?_ }
    exact (congrArg (List.drop len) hnil).trans List.drop_nil
  | error e =>
    cases e with
    | brokenPipe | connectionReset => exact h.drop
    | _ => exact h

theorem Armed.handleRead (h : c.Armed) (recv : Except OSError Bytes) :
    (c.handleRead recv).state.Armed := by
  cases recv with
  | ok data =>
    unfold RemoteProxy.handleRead
    simp only
    split
    · exact h.drop
    · exact { h with }
  | error e =>
    cases e with
    | brokenPipe | connectionReset => exact h.drop
    | _ => exact h

theorem Armed.handleRelay (h : c.Armed) (mask : Mask) (io : RelayIO) :
    (c.handleRelay mask io).state.Armed := by
  have hread {out : RemoteOutcome} (h : out.state.Armed) :
      (if out.returned = false ∧ out.raised = none ∧ mask.read then out.state.handleRead io.recv
        else out : RemoteOutcome).state.Armed := by
    split
    · exact h.handleRead io.recv
    · exact h
  apply hread
  split
  · exact h.handleWrite io.send
  · exact h

theorem Armed.enqueueSendq (h : c.Armed) (data : Bytes) : (c.enqueueSendq data).state.Armed := by
  unfold RemoteProxy.enqueueSendq
  by_cases hw : c.writeEnabled = true
  · have hno : ¬ (data ≠ [] ∧ c.writeEnabled = false) := by simp [hw]
    simp only [if_neg hno]
    exact { h with flag := fun _ => hw }
  · simp only [Bool.not_eq_true] at hw
    by_cases hd : data = []
    · have hno : ¬ (data ≠ [] ∧ c.writeEnabled = false) := by simp [hd]
      simp only [if_neg hno]
      refine { h with flag := fun hq => h.flag ?_ }
      simpa [hd] using hq
    · simp only [hd, hw, ne_eq, not_false_eq_true, and_self, if_true]
      split
      · exact ⟨by simp, fun _ => rfl⟩
      · rename_i hnone
        exact ⟨by simp [hnone], fun _ => rfl⟩

theorem Armed.batchTurn (h : c.Armed) (left : Nat) : (c.batchTurn left).Armed := by
  unfold RemoteProxy.batchTurn
  split
  · exact { h with }
  split
  · exact { h with }
  rename_i q toRemoteProxy _
  have hpop : ({ c with toRemoteProxy } : RemoteProxy).Armed := { h with }
  simp only
  split
  · exact { h with }
  split
  · exact { h with }
  · rename_i data _
    exact { hpop.enqueueSendq data with }

/-- Write interest without bytes to be sent. -/
def Idle (c : RemoteProxy) : Prop := c.writeEnabled = true ∧ c.sendq = []

/-- The send leaves bytes behind. -/
def keepsBytes (c : RemoteProxy) (mask : Mask) (io : RelayIO) : Bool :=
  !mask.write || match io.send with
    | .ok len => len < c.sendq.length || c.sendq.isEmpty
    | .error _ => true

theorem handleWrite_busy {send : Except OSError Nat} (hq : c.sendq ≠ [])
    (hk : ∀ len, send = .ok len → len < c.sendq.length) :
    (c.handleWrite send).state.sendq ≠ [] := by
  cases send with
  | ok len =>
    have hlen := hk len rfl
    intro hnil
    have hdrop : c.sendq.length ≤ len := List.drop_eq_nil_iff.mp hnil
    omega
  | error e => cases e <;> exact hq

theorem handleRead_sendq (recv : Except OSError Bytes) :
    (c.handleRead recv).state.sendq = c.sendq ∧
      (c.handleRead recv).state.writeEnabled = c.writeEnabled := by
  cases recv with
  | ok data =>
    unfold RemoteProxy.handleRead
    simp only
    split <;> exact ⟨rfl, rfl⟩
  | error e => cases e <;> exact ⟨rfl, rfl⟩

theorem handleRelay_idle {mask : Mask} {io : RelayIO} (h : ¬ c.Idle)
    (hk : c.keepsBytes mask io = true) : ¬ (c.handleRelay mask io).state.Idle := by
  have hread {out : RemoteOutcome} (h : ¬ out.state.Idle) :
      ¬ (if out.returned = false ∧ out.raised = none ∧ mask.read then out.state.handleRead io.recv
        else out : RemoteOutcome).state.Idle := by
    split
    · obtain ⟨hq, hw⟩ := handleRead_sendq (c := out.state) io.recv
      rwa [Idle, hq, hw]
    · exact h
  apply hread
  split
  · rename_i hw
    simp only [Bool.and_eq_true, decide_eq_true_eq] at hw
    intro hidle
    refine handleWrite_busy hw.2 (fun len hlen => ?_) hidle.2
    simpa [keepsBytes, hw.1, hlen, hw.2] using hk
  · exact h

theorem enqueueSendq_idle (h : ¬ c.Idle) (data : Bytes) : ¬ (c.enqueueSendq data).state.Idle := by
  unfold RemoteProxy.enqueueSendq
  simp only
  rintro ⟨hw, hq⟩
  split at hq
  · rename_i hd
    split at hq <;> simp [hd.1] at hq
  · rename_i hd
    rw [if_neg hd] at hw
    exact h ⟨hw, (List.append_eq_nil_iff.mp hq).1⟩

theorem batchTurn_idle (h : ¬ c.Idle) (left : Nat) : ¬ (c.batchTurn left).Idle := by
  unfold RemoteProxy.batchTurn
  split
  · exact h
  split
  · exact h
  rename_i q toRemoteProxy _
  simp only
  split
  · exact h
  split
  · exact h
  · rename_i data _
    exact enqueueSendq_idle (c := { c with toRemoteProxy }) h data

theorem handleWrite_recvq (send : Except OSError Nat) :
    (c.handleWrite send).state.recvq = c.recvq := by
  cases send with
  | ok => rfl
  | error e => cases e <;> rfl

/-! ## The registration of the management socket -/

/-- While the socket is registered, every callback that unregisters it asks for a close. -/
theorem handleRead_mask (recv : Except OSError Bytes) (h : (c.handleRead recv).close = false) :
    (c.handleRead recv).state.mask = c.mask := by
  cases recv with
  | ok data =>
    unfold RemoteProxy.handleRead at h ⊢
    simp only at h ⊢
    split
    · rename_i hd
      simp [hd] at h
    · rfl
  | error e =>
    cases e with
    | brokenPipe | connectionReset => simp [RemoteProxy.handleRead] at h
    | _ => rfl

theorem handleWrite_mask (send : Except OSError Nat) :
    (c.handleWrite send).state.mask = c.mask ∨
      (c.handleWrite send).close = true ∧ (c.handleWrite send).returned = true := by
  cases send with
  | ok len => exact .inl rfl
  | error e =>
    cases e with
    | brokenPipe | connectionReset => exact .inr ⟨rfl, rfl⟩
    | _ => exact .inl rfl

theorem handleRelay_mask (mask : Mask) (io : RelayIO) (h : (c.handleRelay mask io).close = false) :
    (c.handleRelay mask io).state.mask = c.mask := by
  let out : RemoteOutcome :=
    if mask.write && c.sendq ≠ [] then c.handleWrite io.send else { state := c }
  have hout : out.state.mask = c.mask ∨ out.close = true ∧ out.returned = true := by
    simp only [out]
    split
    · exact handleWrite_mask io.send
    · exact .inl rfl
  have hrelay : c.handleRelay mask io =
      if out.returned = false ∧ out.raised = none ∧ mask.read then out.state.handleRead io.recv
      else out := rfl
  rw [hrelay] at h ⊢
  split
  · rename_i hret
    rw [if_pos hret] at h
    rw [handleRead_mask io.recv h]
    exact hout.resolve_right fun hclose => by simp [hret.1] at hclose
  · rename_i hret
    rw [if_neg hret] at h
    exact hout.resolve_right fun hclose => by simp [h] at hclose

theorem enqueueSendq_mask (data : Bytes) :
    (c.enqueueSendq data).state.mask = none ↔ c.mask = none := by
  unfold RemoteProxy.enqueueSendq
  simp only
  split
  · split
    · rename_i hm
      simp [hm]
    · rfl
  · rfl

theorem batchTurn_mask (left : Nat) : (c.batchTurn left).mask = none ↔ c.mask = none := by
  unfold RemoteProxy.batchTurn
  split
  · rfl
  split
  · rfl
  rename_i q toRemoteProxy _
  simp only
  split
  · rfl
  split
  · rfl
  · rename_i data _
    exact enqueueSendq_mask (c := { c with toRemoteProxy }) data

end RemoteProxy

namespace Client
variable {c c' : Client}

/-- The management socket is registered, for the right events, until the close event is set. -/
structure Armed (c : Client) : Prop where
  remote : c.remote.Armed
  registered : c.remote.mask = none → c.close = true

theorem Armed.mask_some (h : c.Armed) (hc : c.close = false) :
    ∃ mask, c.remote.mask = some mask := by
  rw [← Option.isSome_iff_exists, Option.isSome_iff_ne_none]
  intro hnone
  cases hc.symm.trans (h.registered hnone)

theorem processMsg_armed (h : c.Armed) (msg : PortPortMessage) : (c.processMsg msg).Armed := by
  unfold processMsg
  split
  · exact { h with }
  · split
    · exact ⟨h.remote, fun _ => rfl⟩
    · exact h

theorem remoteStep_armed (h : c.Armed) {a : RemoteAction} (hs : c.remoteStep a = some c') :
    c'.Armed := by
  have hgoto (p : RemotePhase) : (c.goto p).Armed :=
    ⟨{ h.remote with }, h.registered⟩
  cases remoteStep_moves hs with
  | @relayIo mask events io =>
    refine ⟨{ h.remote.handleRelay mask io with }, fun hm => ?_⟩
    simp only [Bool.or_eq_true]
    by_cases hclose : (c.remote.handleRelay mask io).close = true
    · exact .inr hclose
    · rw [Bool.not_eq_true] at hclose
      exact .inl (h.registered ((RemoteProxy.handleRelay_mask mask io hclose).symm.trans hm))
  | wakeupRead => exact ⟨{ h.remote with }, h.registered⟩
  | @takes msg recvq =>
    have hrest : ({ c with remote := { c.remote with recvq } } : Client).Armed :=
      ⟨{ h.remote with }, h.registered⟩
    exact processMsg_armed hrest msg
  | batch =>
    exact ⟨h.remote.batchTurn _, fun hm => h.registered ((RemoteProxy.batchTurn_mask _).mp hm)⟩
  | _ => exact hgoto _

/-- A callback of the management socket leaves bytes behind. -/
def keepsBytes (c : Client) : RemoteAction → Bool
  | .relayIo io =>
    match c.remote.phase with
    | .dispatch ((.client, mask) :: _) => c.remote.keepsBytes mask io
    | _ => true
  | _ => true

theorem remoteStep_idle {a : RemoteAction} (h : ¬ c.remote.Idle) (hk : c.keepsBytes a = true)
    (hs : c.remoteStep a = some c') : ¬ c'.remote.Idle := by
  cases remoteStep_moves hs with
  | @relayIo mask events io hp =>
    have hk : c.remote.keepsBytes mask io = true := by simpa [keepsBytes, hp] using hk
    exact RemoteProxy.handleRelay_idle h hk
  | takes =>
    rw [processMsg_remote]
    exact h
  | batch => exact RemoteProxy.batchTurn_idle h _
  | _ => exact h

end Client

namespace RemoteRun

/-- No send of the thread takes all the bytes that wait. -/
def keepsBytes (s : RemoteRun) : Event → Bool
  | .thread a => s.client.keepsBytes a
  | _ => true

theorem Reachable.busy {s : RemoteRun} (h : Reachable (fun s e => s.keepsBytes e) s) :
    ¬ s.client.remote.Idle := by
  apply h.invariant (J := fun s => ¬ s.client.remote.Idle)
  · rintro _ ⟨remotePort, rfl⟩
    rintro ⟨hw, -⟩
    cases hw
  · intro s e s' hI hP hs
    rcases step_cases hs with ⟨a, rfl, ha, -⟩ | ⟨-, -, puts, hm, -⟩ | ⟨-, -, hm⟩ | ⟨-, rfl⟩
    · exact Client.remoteStep_idle hI hP ha
    · rw [hm]
      exact hI
    · rw [hm]
      exact hI
    · exact hI

theorem Reachable.armed {P : RemoteRun → Event → Prop} {s : RemoteRun} (h : Reachable P s) :
    s.client.Armed := by
  apply h.invariant (J := fun s => s.client.Armed)
  · rintro _ ⟨remotePort, rfl⟩
    refine ⟨⟨fun m hm => ?_, nofun⟩, nofun⟩
    exact (Option.some.inj hm).symm
  · intro s e s' hI hP hs
    rcases step_cases hs with ⟨a, -, ha, -⟩ | ⟨-, hc, puts, hm, -⟩ | ⟨-, hc, hm⟩ | ⟨-, rfl⟩
    · exact Client.remoteStep_armed hI ha
    · refine ⟨?_, ?_⟩
      · rw [hm]
        exact { hI.remote with }
      · rw [hm, hc]
        exact hI.registered
    · refine ⟨?_, ?_⟩
      · rw [hm]
        exact { hI.remote with }
      · rw [hm, hc]
        exact hI.registered
    · exact ⟨hI.remote, fun _ => rfl⟩

end RemoteRun
end PortPort
