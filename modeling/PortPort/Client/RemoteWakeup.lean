import PortPort.Client.RemoteRun

/-! # Wakeups of the remote proxy thread

The drain of `to_remote_proxy` takes at most five messages, though the callback of the wakeup socket
has taken all the bytes that announced them. As in the management thread, a drain that stops at the
bound has put frames in `sendq`. -/

namespace PortPort
open Client (RemoteAction)

namespace RemoteProxy

theorem enqueueSendq_sendq (c : RemoteProxy) (data : Bytes) :
    (c.enqueueSendq data).state.sendq = c.sendq ++ data := by
  unfold enqueueSendq
  simp only
  split
  · split <;> rfl
  · rfl

/-- A turn of the drain ends it with an empty queue or at the bound, ends the thread, or has put a
frame in `sendq`. -/
theorem batchTurn_cases (c : RemoteProxy) (left : Nat) :
    ((left = 0 ∨ c.toRemoteProxy = []) ∧ c.batchTurn left = { c with phase := .top }) ∨
      (∃ e, (c.batchTurn left).phase = .crashed e) ∨
      0 < left ∧ (c.batchTurn left).phase = .batch (left - 1) ∧ (c.batchTurn left).sendq ≠ [] := by
  unfold batchTurn
  by_cases hl : left = 0
  · exact .inl ⟨.inl hl, by rw [if_pos hl]⟩
  rw [if_neg hl]
  cases hd : c.toRemoteProxy with
  | nil => exact .inl ⟨.inr rfl, by simp⟩
  | cons q toRemoteProxy =>
    simp only
    split
    · exact .inr (.inl ⟨_, rfl⟩)
    split
    · exact .inr (.inl ⟨_, rfl⟩)
    · rename_i data hdata
      split
      · refine .inr (.inr ⟨Nat.pos_of_ne_zero hl, rfl, ?_⟩)
        rw [enqueueSendq_sendq]
        have := PortPortMessage.serialize_ne_nil hdata
        simp [this]
      · exact .inr (.inl ⟨_, rfl⟩)

end RemoteProxy

namespace Client
variable {c c' : Client}

/-- A phase in which the thread neither tests the loop condition nor is inside the drain. -/
def OutsideBatch : RemotePhase → Prop
  | .top => False
  | .batch left => left = RemoteProxy.BOUNDED_BATCH
  | _ => True

/-- Only a turn of the drain ends it or goes on with it. -/
theorem remoteStep_outside {a : RemoteAction} (h : c.remoteStep a = some c') :
    OutsideBatch c'.remote.phase ∨
      ∃ left, c.remote.phase = .batch left ∧ c' = { c with remote := c.remote.batchTurn left } := by
  cases remoteStep_moves h with
  | relayIo =>
    apply Or.inl
    simp only
    split <;> trivial
  | breaks => exact .inl rfl
  | takes hp =>
    apply Or.inl
    rw [processMsg_remote]
    simp only [hp]
    trivial
  | batch hp => exact .inr ⟨_, hp, rfl⟩
  | _ => exact .inl trivial

end Client

namespace RemoteRun

/-- When the thread calls `select` it will be woken up for the messages on its queue: by a wakeup
byte, by the local proxy that is about to send one, or because bytes wait to be sent. -/
def Signalled (s : RemoteRun) : Prop :=
  s.client.remote.toRemoteProxy = [] ∨ s.client.remote.wakeupPending = true ∨ 0 < s.putting ∨
    s.client.remote.sendq ≠ []

/-- What the drain keeps: at the test of the loop condition every message is signalled, and inside
the drain bytes wait to be sent. -/
def Awake (s : RemoteRun) : Prop :=
  match s.client.remote.phase with
  | .top => s.Signalled
  | .batch left => left = RemoteProxy.BOUNDED_BATCH ∨ s.client.remote.sendq ≠ []
  | _ => True

theorem Awake.of_outside {s : RemoteRun} (h : Client.OutsideBatch s.client.remote.phase) :
    s.Awake := by
  unfold Awake
  cases hp : s.client.remote.phase with
  | top => rw [hp] at h; exact h.elim
  | batch left => rw [hp] at h; exact .inl h
  | _ => trivial

theorem Awake.thread {s s' : RemoteRun} {a : RemoteAction} (h : s.Awake)
    (hs : s.client.remoteStep a = some s'.client) : s'.Awake := by
  rcases Client.remoteStep_outside hs with hout | ⟨left, hp, hturn⟩
  · exact .of_outside hout
  · simp only [Awake, hp] at h
    have hm : s'.client.remote = s.client.remote.batchTurn left := by rw [hturn]
    rcases s.client.remote.batchTurn_cases left with ⟨hend, heq⟩ | ⟨e, hp'⟩ | ⟨-, hp', hq⟩
    · simp only [Awake, Signalled, hm, heq]
      -- The bound is reached only behind a turn that has put a frame in `sendq`.
      rcases hend with rfl | hempty
      · exact .inr (.inr (.inr (h.resolve_left (by decide))))
      · exact .inl hempty
    · simp only [Awake, hm, hp']
    · simp only [Awake, hm, hp']
      exact .inr hq

theorem Awake.step {s s' : RemoteRun} {e : Event} (h : s.Awake)
    (hs : RemoteRun.step s e = some s') : s'.Awake := by
  rcases step_cases hs with ⟨a, -, ha, -⟩ | ⟨-, -, puts, hm, hput⟩ | ⟨-, -, hm⟩ | ⟨-, rfl⟩
  · exact h.thread ha
  · unfold Awake Signalled at h ⊢
    rw [hm, hput]
    simp only
    split at h
    · cases puts with
      | nil => simpa using h
      | cons q puts =>
        rw [List.length_cons]
        exact .inr (.inr (.inl (by omega)))
    · exact h
    · trivial
  · unfold Awake Signalled at h ⊢
    rw [hm]
    simp only
    split at h
    · exact .inr (.inl trivial)
    · exact h
    · trivial
  · exact h

theorem Reachable.awake {P : RemoteRun → Event → Prop} {s : RemoteRun} (h : Reachable P s) :
    s.Awake := by
  apply h.invariant (J := Awake)
  · rintro _ ⟨remotePort, rfl⟩
    exact .inl rfl
  · exact fun _ _ _ hI _ hs => hI.step hs

/-- The thread is about to call `select`, with the close event unset. -/
structure Selecting (s : RemoteRun) : Prop where
  phase : s.client.remote.phase = .top
  close : s.client.close = false

theorem Reachable.signalled {P : RemoteRun → Event → Prop} {s : RemoteRun} (h : Reachable P s)
    (hsel : s.Selecting) : s.Signalled := by
  have hawake := h.awake
  simpa only [Awake, hsel.phase] using hawake

end RemoteRun
end PortPort
