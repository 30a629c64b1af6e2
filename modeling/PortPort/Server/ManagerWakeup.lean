import PortPort.Server.ManagerRun

/-! # Wakeups of the management thread

The drain of `inbound_data` takes at most a hundred messages, though the callback of the wakeup
socket has taken all the bytes that announced them. A drain that stops at the bound has put frames
in `sendq`, so the next `select` returns at once. -/

namespace PortPort
open Server (ManagerAction)
open Relay (BindResult)

namespace Server
variable {s s' : Server}

/-- A phase in which the thread neither tests the loop condition nor is inside the drain. -/
def OutsideDrain : ManagerPhase → Prop
  | .top => False
  | .inboundLoop left => left = INBOUND_BATCH
  | _ => True

theorem Replied.outside (h : Replied s s') : OutsideDrain s'.mgr.phase := by
  rcases h.phase with hp | hp
  · rw [hp]
    trivial
  · rw [hp]
    rfl

/-- Only a turn of the drain ends it or goes on with it. -/
theorem mgrStep_outside {a : ManagerAction} (h : s.mgrStep a = some s') :
    OutsideDrain s'.mgr.phase ∨
      ∃ left, s.mgr.phase = .inboundLoop left ∧ s' = s.withMgr (s.mgr.inboundTurn left) := by
  cases mgrStep_moves h with
  | clientIo =>
    apply Or.inl
    simp only [withMgr_mgr]
    split <;> trivial
  | emptied => exact .inl rfl
  | takes _ _ _ hp =>
    cases hp with
    | replies hr => exact .inl hr.replied.outside
    | _ => exact .inl trivial
  | refuses _ _ hr => exact .inl hr.replied.outside
  | announces _ hr => exact .inl hr.replied.outside
  | destroys _ _ hr => exact .inl hr.replied.outside
  | drains hp => exact .inr ⟨_, hp, rfl⟩
  | _ => exact .inl trivial

end Server

namespace Manager

/-- A turn of the drain ends it with an empty queue, at the bound or for a close, or has put a frame
in `sendq`. -/
theorem inboundTurn_cases (m : Manager) (left : Nat) :
    (m.inboundTurn left).phase = .top ∧ ((m.inboundTurn left).closeThread = true ∨
        (left = 0 ∨ m.inboundData = []) ∧ m.inboundTurn left = { m with phase := .top }) ∨
      0 < left ∧ (m.inboundTurn left).phase = .inboundLoop (left - 1) ∧
        (m.inboundTurn left).sendq ≠ [] := by
  have hdrains := m.inboundTurn_drains left
  generalize m.inboundTurn left = m' at hdrains ⊢
  cases hdrains with
  | ends h =>
    refine .inl ⟨rfl, ?_⟩
    rcases h with hl | hc | hempty
    · exact .inr ⟨.inl hl, rfl⟩
    · exact .inl hc
    · exact .inr ⟨.inr hempty, rfl⟩
  | sends hl hi hm =>
    have hq := send_ne_nil hm
    exact .inr ⟨hl, rfl, hq⟩
  | fails => exact .inl ⟨rfl, .inl rfl⟩

end Manager

namespace ManagerRun

/-- When the thread calls `select` it will be woken up for the messages on its queue: by a wakeup
byte, by a relay that is about to send one, or because bytes wait to be sent. -/
def Signalled (s : ManagerRun) : Prop :=
  s.server.mgr.inboundData = [] ∨ s.server.mgr.wakeupPending = true ∨ 0 < s.putting ∨
    s.server.mgr.sendq ≠ []

/-- What the drain keeps: at the test of the loop condition every message is signalled, and inside
the drain bytes wait to be sent. -/
def Awake (s : ManagerRun) : Prop :=
  match s.server.mgr.phase with
  | .top => s.server.mgr.closeThread = true ∨ s.Signalled
  | .inboundLoop left => left = INBOUND_BATCH ∨ s.server.mgr.sendq ≠ []
  | _ => True

theorem Awake.of_outside {s : ManagerRun} (h : Server.OutsideDrain s.server.mgr.phase) :
    s.Awake := by
  unfold Awake
  cases hp : s.server.mgr.phase with
  | top => rw [hp] at h; exact h.elim
  | inboundLoop left => rw [hp] at h; exact .inl h
  | _ => trivial

theorem Awake.thread {s s' : ManagerRun} {a : ManagerAction} (h : s.Awake)
    (hs : s.server.mgrStep a = some s'.server) : s'.Awake := by
  rcases Server.mgrStep_outside hs with hout | ⟨left, hp, hturn⟩
  · exact .of_outside hout
  · simp only [Awake, hp] at h
    have hm : s'.server.mgr = s.server.mgr.inboundTurn left := by rw [hturn]; rfl
    rcases s.server.mgr.inboundTurn_cases left with ⟨hp', hend⟩ | ⟨-, hp', hq⟩
    · simp only [Awake, hm, hp']
      rcases hend with hclose | ⟨hend, heq⟩
      · exact .inl hclose
      -- The bound is reached only behind a turn that has put a frame in `sendq`.
      refine .inr ?_
      unfold Signalled
      rw [hm, heq]
      rcases hend with rfl | hempty
      · exact .inr (.inr (.inr (h.resolve_left (by decide))))
      · exact .inl hempty
    · simp only [Awake, hm, hp']
      exact .inr hq

theorem Awake.step {s s' : ManagerRun} {e : Event} (h : s.Awake)
    (hs : ManagerRun.step s e = some s') : s'.Awake := by
  rcases step_cases hs with ⟨a, -, ha, -⟩ | ⟨-, puts, hm, hput⟩ | ⟨-, hm⟩ | ⟨rfl, hm, -⟩
  · exact h.thread ha
  · unfold Awake Signalled at h ⊢
    rw [hm, hput]
    simp only
    split at h
    · refine h.imp_right fun h => ?_
      cases puts with
      | nil => simpa using h
      | cons q puts =>
        rw [List.length_cons]
        exact .inr (.inr (.inl (by omega)))
    · exact h
    · trivial
  · unfold Awake Signalled at h ⊢
    rw [hm]
    simp only
    split at h
    · exact .inr (.inr (.inl trivial))
    · exact h
    · trivial
  · cases hs
    exact h

theorem Reachable.awake {P : ManagerRun → Event → Prop} {s : ManagerRun} (h : Reachable P s) :
    s.Awake := by
  apply h.invariant (J := Awake)
  · rintro _ ⟨portRange, rfl⟩
    exact .inr (.inl rfl)
  · exact fun _ _ _ hI _ hs => hI.step hs

/-- The thread is about to call `select`, with both close flags unset. -/
structure Selecting (s : ManagerRun) : Prop where
  phase : s.server.mgr.phase = .top
  closeService : s.server.closeService = false
  closeThread : s.server.mgr.closeThread = false

theorem Reachable.signalled {P : ManagerRun → Event → Prop} {s : ManagerRun} (h : Reachable P s)
    (hsel : s.Selecting) : s.Signalled := by
  have hawake := h.awake
  simp only [Awake, hsel.phase, hsel.closeThread] at hawake
  exact hawake.resolve_left Bool.false_ne_true

end ManagerRun
end PortPort
