import PortPort.Lib.Transition
import PortPort.Server.RelayChanges

/-! # A relay among the other threads

The relay thread takes its steps between those of the threads that put messages on its queue, wake
it up and set its close flags. A call of `enqueue_outbound` is two steps, its `put` and its
`wakeup`. -/

namespace PortPort
open Relay (RelayAction)

structure RelayRun where
  relay : Relay
  /-- the service's close event -/
  closeReq : Bool := false
  /-- the calls of `enqueue_outbound` that are between their `put` and their `wakeup` -/
  putting : Nat := 0

namespace RelayRun

inductive Event
  | thread (a : RelayAction)
  | put (m : QueuedRelayMessage)
  | wakeup
  /-- `atomic_close` is set -/
  | atomicClose
  /-- a `wakeup` that follows no `put` -/
  | rouse
  /-- the service's close event is set -/
  | shutdown

def step (s : RelayRun) : Event → Option RelayRun
  | .thread a => (s.relay.step s.closeReq a).map fun (r, _) => { s with relay := r }
  | .put m =>
    some { s with
      relay := { s.relay with outbound := s.relay.outbound ++ [m] }, putting := s.putting + 1 }
  | .wakeup =>
    if 0 < s.putting then
      some { s with relay := s.relay.wakeup, putting := s.putting - 1 }
    else none
  | .atomicClose => some { s with relay := { s.relay with atomicClose := true } }
  | .rouse => some { s with relay := s.relay.wakeup }
  | .shutdown => some { s with closeReq := true }

/-- The relay is bound to a port and its thread not yet in `listen`. -/
def start (port : Int) : RelayRun := { relay := { identifyingPort := port } }

def Init (s : RelayRun) : Prop := ∃ port, s = start port

abbrev Reachable (P : RelayRun → Event → Prop) : RelayRun → Prop :=
  Transition.Reach (Transition.Fires step) P Init

/-- `accept` returns no address that is still in the table. -/
def FreshAccept (s : RelayRun) (e : Event) : Prop :=
  ∀ addr, e = .thread (.accept (.ok addr)) → s.relay.connectionTable.lookup addr = none

/-- The test for `FreshAccept`. -/
def freshAccept (s : RelayRun) : Event → Bool
  | .thread (.accept (.ok addr)) => s.relay.connectionTable.lookup addr = none
  | _ => true

theorem freshAccept_iff {s : RelayRun} {e : Event} : freshAccept s e ↔ FreshAccept s e := by
  unfold freshAccept FreshAccept
  split <;> simp_all

theorem step_thread {s s' : RelayRun} {a : RelayAction} (h : step s (.thread a) = some s') :
    ∃ r puts, s.relay.step s.closeReq a = some (r, puts) ∧ s' = { s with relay := r } := by
  obtain ⟨⟨r, puts⟩, hr, rfl⟩ := Option.map_eq_some_iff.mp h
  exact ⟨r, puts, hr, rfl⟩

/-- What an event does to the relay: a step of its thread, or a change of its queue and flags. -/
theorem step_cases {s s' : RelayRun} {e : Event} (h : step s e = some s') :
    (∃ a r puts, e = .thread a ∧ s.relay.step s.closeReq a = some (r, puts) ∧
      s' = { s with relay := r }) ∨
    (∀ a, e ≠ .thread a) ∧ s'.relay.phase = s.relay.phase ∧
      ∃ outbound atomicClose wakeupPending woken,
        s'.relay = { s.relay with outbound, atomicClose, wakeupPending, woken } := by
  cases e with
  | thread a =>
    obtain ⟨r, puts, hr, rfl⟩ := step_thread h
    exact .inl ⟨a, r, puts, rfl, hr, rfl⟩
  | wakeup =>
    simp only [step, Option.ite_none_right_eq_some, Option.some.injEq] at h
    obtain ⟨-, rfl⟩ := h
    exact .inr ⟨by simp, rfl, _, _, _, _, rfl⟩
  | put | atomicClose | rouse | shutdown =>
    cases h
    exact .inr ⟨by simp, rfl, _, _, _, _, rfl⟩

theorem Inv.step {own : Prop} {s s' : RelayRun} {e : Event} (hI : s.relay.Inv own)
    (hfresh : own → FreshAccept s e) (h : RelayRun.step s e = some s') : s'.relay.Inv own := by
  rcases step_cases h with ⟨a, r, puts, rfl, hr, rfl⟩ | ⟨-, -, _, _, _, _, hs'⟩
  · exact hI.step (fun ho addr ha => hfresh ho addr (ha ▸ rfl)) hr
  · rw [hs']
    exact { hI with }

theorem Inv.start (own : Prop) (port : Int) : (start port).relay.Inv own where
  entry h := by simp [RelayRun.start] at h
  ports h := absurd h (Nat.not_lt_zero _)
  registered h := by simp [RelayRun.start] at h
  dispatch h := by simp [RelayRun.start] at h
  own _ h := absurd h (Nat.not_lt_zero _)

theorem Reachable.inv {own : Prop} {P : RelayRun → Event → Prop} {s : RelayRun}
    (hfresh : own → ∀ s e, P s e → FreshAccept s e) (h : Reachable P s) : s.relay.Inv own := by
  apply h.invariant (J := fun s => s.relay.Inv own)
  · rintro _ ⟨port, rfl⟩
    exact Inv.start own port
  · intro s e s' hI hP hs
    exact Inv.step hI (fun ho => hfresh ho s e hP) hs

/-- The execution of a list of events from the start. -/
def run (test : RelayRun → Event → Bool) (es : List Event) : Option RelayRun :=
  Transition.exec step test (start 4000) es

theorem Reachable.of_run {P : RelayRun → Event → Prop} {test : RelayRun → Event → Bool}
    (htest : ∀ s e, test s e → P s e) {es : List Event} {s : RelayRun} (h : run test es = some s) :
    Reachable P s :=
  .exec htest (.init ⟨4000, rfl⟩) h

end RelayRun
end PortPort
