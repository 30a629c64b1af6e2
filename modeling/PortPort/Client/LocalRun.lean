import PortPort.Lib.Transition
import PortPort.Client.LocalChanges

/-! # The local proxy among the other threads

The local proxy thread takes its steps between those of the remote proxy thread, which puts items on
its queue and wakes it up. As for the relay, a `put` and the `wakeup_local_proxy` behind it are two
steps. -/

namespace PortPort
open LocalProxy (LocalAction)

structure LocalRun where
  proxy : LocalProxy
  /-- the client's close event -/
  close : Bool := false
  /-- the items put on `to_local` whose `wakeup_local_proxy` is still to come -/
  putting : Nat := 0

namespace LocalRun

inductive Event
  | thread (a : LocalAction)
  | put (m : QueuedRelayMessage)
  | wakeup
  /-- a `wakeup_local_proxy` that follows no `put` -/
  | rouse
  /-- the close event is set -/
  | shutdown

def step (s : LocalRun) : Event → Option LocalRun
  | .thread a => (s.proxy.step s.close a).map fun (proxy, _) => { s with proxy }
  | .put m =>
    some { s with
      proxy := { s.proxy with toLocal := s.proxy.toLocal ++ [m] }, putting := s.putting + 1 }
  | .wakeup =>
    if 0 < s.putting then some { s with proxy := s.proxy.wakeup, putting := s.putting - 1 }
    else none
  | .rouse => some { s with proxy := s.proxy.wakeup }
  | .shutdown => some { s with close := true }

/-- The thread has registered its wakeup socket and is about to enter the loop. -/
def start (remotePort : Int) : LocalRun := { proxy := { remotePort } }

def Init (s : LocalRun) : Prop := ∃ remotePort, s = start remotePort

abbrev Reachable (P : LocalRun → Event → Prop) : LocalRun → Prop :=
  Transition.Reach (Transition.Fires step) P Init

theorem step_thread {s s' : LocalRun} {a : LocalAction} (h : step s (.thread a) = some s') :
    ∃ l puts, s.proxy.step s.close a = some (l, puts) ∧ s' = { s with proxy := l } := by
  obtain ⟨⟨l, puts⟩, hl, rfl⟩ := Option.map_eq_some_iff.mp h
  exact ⟨l, puts, hl, rfl⟩

/-- What an event does to the local proxy: a step of its thread, or a change of its queue. -/
theorem step_cases {s s' : LocalRun} {e : Event} (h : step s e = some s') :
    (∃ a l puts, e = .thread a ∧ s.proxy.step s.close a = some (l, puts) ∧
      s' = { s with proxy := l }) ∨
    (∀ a, e ≠ .thread a) ∧ ∃ toLocal wakeupPending,
      s'.proxy = { s.proxy with toLocal, wakeupPending } := by
  cases e with
  | thread a =>
    obtain ⟨l, puts, hl, rfl⟩ := step_thread h
    exact .inl ⟨a, l, puts, rfl, hl, rfl⟩
  | wakeup =>
    simp only [step, Option.ite_none_right_eq_some, Option.some.injEq] at h
    obtain ⟨-, rfl⟩ := h
    exact .inr ⟨by simp, _, _, rfl⟩
  | put | rouse | shutdown =>
    cases h
    exact .inr ⟨by simp, _, _, rfl⟩

/-- The execution of a list of events from the start. -/
def run (test : LocalRun → Event → Bool) (es : List Event) : Option LocalRun :=
  Transition.exec step test (start 4000) es

theorem Reachable.of_run {P : LocalRun → Event → Prop} {test : LocalRun → Event → Bool}
    (htest : ∀ s e, test s e → P s e) {es : List Event} {s : LocalRun}
    (h : run test es = some s) : Reachable P s :=
  .exec htest (.init ⟨4000, rfl⟩) h

/-- A connection is opened, and then `recv` of its socket has these results, one a pass of the
loop. -/
def receives (results : List (Except OSError Bytes)) : List Event :=
  [.put ⟨.newConnection, .dotted 10 0 0 1, 5000, [], 4000⟩, .wakeup, .thread .turn,
    .thread (.item 0 { socket := .ok 5, connect := .ok () }), .thread .turn, .thread (.select []),
    .thread .turn] ++
  results.flatMap fun recv => [.thread .turn, .thread .turn, .thread (.select [(.conn 0, .r)]),
    .thread (.io { recv, send := .ok 0 }), .thread .turn]

end LocalRun
end PortPort
