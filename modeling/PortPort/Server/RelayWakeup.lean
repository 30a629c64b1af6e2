import PortPort.Server.RelayRun

/-! # Wakeups of the relay

A message on the queue of the relay is signalled by a byte in the wakeup socket, or will be by the
call that put it there. The callback of the wakeup socket takes all these bytes, and the drain that
follows is to take all the messages; but a message about an unknown connection ends it. -/

namespace PortPort
open Relay (RelayAction)

namespace Relay
variable {r r' : Relay} {closeReq : Bool} {a : RelayAction} {puts : List (Nat × QueuedRelayMessage)}

/-- The thread comes to the test of the loop condition from `listen` or from the drain. -/
theorem step_top {own : Prop} (hI : r.Inv own) (h : r.step closeReq a = some (r', puts))
    (hp : r'.phase = .start ∨ r'.phase = .top) :
    (r.phase = .start ∧ r' = { r with phase := .top, sck := .listening }) ∨
      r.phase = .drain ∧ a = .turn := by
  have hcallback {out : Outcome Relay} {events : List (RelayKey × Mask)}
      (hp : (afterCallback out events).phase = .start ∨ (afterCallback out events).phase = .top) :
      False := by
    unfold afterCallback at hp
    split at hp <;> simp at hp
  cases step_moves h with
  | listens hph => exact .inl ⟨hph, rfl⟩
  | accepts | io => exact (hcallback hp).elim
  | drained hph | handles hph => exact .inr ⟨hph, rfl⟩
  | cleansUp hph ha =>
    obtain ⟨n, hl⟩ := Dict.first?_mem ha
    rw [cleanUpConnection_eq hI hl] at hp
    simp [removed, hph] at hp
  | _ => simp at hp

/-- A `KeyError` in the drain is about an address that is not in the table. -/
theorem handleOutbound_keyError {own : Prop} (hI : r.Inv own) (m : QueuedRelayMessage) :
    (r.handleOutbound m).raised = some .keyError ↔ r.connectionTable.lookup m.peer = none := by
  unfold handleOutbound
  cases hl : r.connectionTable.lookup m.peer with
  | none => simp
  | some n =>
    have hs := (hI.entry hl).2.2.1
    cases hk : m.kind with
    | message =>
      by_cases hw : (r.conns n).writeEnabled = true
      · simp [hw]
      · simp [hw, modify, setConn, hs]
    | closeConnection => simp [cleanUpConnection_eq hI hl]
    | newConnection => simp

theorem handleOutbound_none {m : QueuedRelayMessage}
    (hl : r.connectionTable.lookup m.peer = none) :
    r.handleOutbound m = { state := r, raised := some .keyError } := by
  simp [handleOutbound, hl]

/-- The drain has ended: on a `KeyError`, or with the close flag set. -/
theorem afterOutbound_top {out : Outcome Relay}
    (hp : (afterOutbound out).phase = .start ∨ (afterOutbound out).phase = .top) :
    out.raised = some .keyError ∨ (afterOutbound out).atomicClose = true := by
  unfold afterOutbound at hp ⊢
  split at hp
  · simp at hp
  · rename_i h
    exact .inl h
  · exact .inr rfl

end Relay

namespace RelayRun

/-- The relay will be woken up for these messages, if there are any. -/
def Signalled (s : RelayRun) (messages : List QueuedRelayMessage) : Prop :=
  messages = [] ∨ s.relay.wakeupPending = true ∨ 0 < s.putting

instance (s : RelayRun) (messages : List QueuedRelayMessage) : Decidable (s.Signalled messages) :=
  inferInstanceAs (Decidable (_ ∨ _ ∨ _))

/-- Both close flags are unset. -/
def Running (s : RelayRun) : Prop := s.closeReq = false ∧ s.relay.atomicClose = false

/-- When the relay is about to call `select`, the messages on its queue are signalled. -/
def NoLostWakeup (s : RelayRun) : Prop :=
  s.relay.phase = .top → s.Running → s.Signalled s.relay.outbound

/-- The messages that the drain leaves behind when it takes one about an unknown connection. -/
def abandoned (s : RelayRun) : Event → List QueuedRelayMessage
  | .thread .turn =>
    match s.relay.outbound with
    | m :: rest =>
      if s.relay.phase = .drain ∧ s.closeReq = false ∧ s.relay.atomicClose = false ∧
          s.relay.connectionTable.lookup m.peer = none then rest
      else []
    | [] => []
  | _ => []

/-- The messages left behind are signalled. -/
def signalsAbandoned (s : RelayRun) (e : Event) : Bool := s.Signalled (s.abandoned e)

/-- The messages are signalled also before the first test of the loop condition. -/
def Awake (s : RelayRun) : Prop :=
  s.relay.phase = .start ∨ s.relay.phase = .top → s.Running → s.Signalled s.relay.outbound

theorem Awake.noLostWakeup {s : RelayRun} (h : s.Awake) : s.NoLostWakeup :=
  fun hp => h (.inr hp)

theorem Awake.step {s s' : RelayRun} {e : Event} (hI : s.relay.Inv False) (h : s.Awake)
    (hP : s.signalsAbandoned e) (hs : RelayRun.step s e = some s') : s'.Awake := by
  intro hp hrun
  cases e with
  | put m =>
    cases hs
    exact .inr (.inr (Nat.succ_pos _))
  | wakeup =>
    simp only [RelayRun.step, Option.ite_none_right_eq_some, Option.some.injEq] at hs
    obtain ⟨-, rfl⟩ := hs
    exact .inr (.inl rfl)
  | rouse =>
    cases hs
    exact .inr (.inl rfl)
  | atomicClose =>
    cases hs
    cases hrun.2
  | shutdown =>
    cases hs
    cases hrun.1
  | thread a =>
    obtain ⟨r, puts, hr, rfl⟩ := step_thread hs
    rcases Relay.step_top hI hr hp with ⟨hph, rfl⟩ | ⟨hph, rfl⟩
    · exact h (.inl hph) hrun
    rcases Relay.step_drain hph hr with ⟨rfl, -, hend⟩ | ⟨m, rest, ho, hc, hat, rfl, -⟩
    · rcases hend with hc | hat | ho
      · cases hrun.1.symm.trans hc
      · cases hrun.2.symm.trans hat
      · exact .inl ho
    · rcases Relay.afterOutbound_top hp with hraised | hat
      · have hI' : ({ s.relay with outbound := rest } : Relay).Inv False := { hI with }
        have hl := (Relay.handleOutbound_keyError hI' m).mp hraised
        rw [Relay.handleOutbound_none hl]
        simpa [signalsAbandoned, abandoned, ho, hph, hc, hat, show s.relay.connectionTable.lookup
          m.peer = none from hl, Signalled, Relay.afterOutbound] using hP
      · cases hrun.2.symm.trans hat

/-- A drain that leaves unsignalled messages behind loses a wakeup. -/
theorem not_noLostWakeup {s s' : RelayRun} {e : Event} (hP : ¬ s.signalsAbandoned e)
    (hs : RelayRun.step s e = some s') : ¬ s'.NoLostWakeup := by
  unfold signalsAbandoned abandoned at hP
  split at hP
  · split at hP
    · rename_i m rest ho
      split at hP
      · rename_i h
        obtain ⟨hph, hc, hat, hl⟩ := h
        obtain ⟨r, puts, hr, rfl⟩ := step_thread hs
        rcases Relay.step_drain hph hr with ⟨rfl, -, hend⟩ | ⟨m', rest', ho', -, -, rfl, -⟩
        · simp [hc, hat, ho] at hend
        · cases ho'.symm.trans ho
          have hout : ({ s.relay with outbound := rest } : Relay).handleOutbound m =
              { state := { s.relay with outbound := rest }, raised := some .keyError } :=
            Relay.handleOutbound_none hl
          rw [hout]
          intro hlost
          have hsig := hlost rfl ⟨hc, hat⟩
          exact hP (decide_eq_true hsig)
      · simp [Signalled] at hP
    · simp [Signalled] at hP
  · simp [Signalled] at hP

/-- **Wakeups of the relay**: in every run in which the drain leaves no unsignalled message behind
one about an unknown connection, no wakeup is lost, and the next step keeps this so exactly when it
leaves no such message behind either. -/
theorem noLostWakeup_iff {s s' : RelayRun} {e : Event}
    (h : Reachable (fun s e => s.signalsAbandoned e) s) (hs : step s e = some s') :
    s.NoLostWakeup ∧ (s'.NoLostWakeup ↔ s.signalsAbandoned e) := by
  have hI {s : RelayRun} (h : Reachable (fun s e => s.signalsAbandoned e) s) :
      s.relay.Inv False := h.inv (fun h => h.elim)
  have hawake : s.Awake := by
    apply h.invariant_of (J := Awake) (K := fun s => s.relay.Inv False)
    · exact fun _ h => hI h
    · rintro _ ⟨port, rfl⟩ - -
      exact .inl rfl
    · exact fun _ _ _ hI h hP hs => h.step hI hP hs
  refine ⟨hawake.noLostWakeup, fun hlost => ?_, fun hP => ?_⟩
  · by_contra hP
    exact not_noLostWakeup hP hs hlost
  · exact (hawake.step (hI h) hP hs).noLostWakeup

/-- A connection is accepted, and the relay has come to the drain of these messages. -/
def draining (messages : List QueuedRelayMessage) : List Event :=
  [.thread (.listen (.ok ())), .thread (.select [(.listening, .r)]),
    .thread (.accept (.ok (.dotted 10 0 0 1, 5000))), .thread .turn, .thread .turn] ++
    messages.flatMap (fun m => [.put m, .wakeup]) ++
    [.thread (.select [(.wakeup, .r)]), .thread (.wakeupRead false), .thread .turn]

/-- A close of a connection that has ended. -/
def staleClose : QueuedRelayMessage := ⟨.closeConnection, .dotted 10 0 0 2, 6000, [], 4000⟩

/-- Data for the connection that is open. -/
def liveData : QueuedRelayMessage := ⟨.message, .dotted 10 0 0 1, 5000, [1], 4000⟩

theorem noLostWakeup_staleLast :
    ∃ s s', run signalsAbandoned (draining [liveData, staleClose] ++ [.thread .turn]) = some s ∧
      step s (.thread .turn) = some s' ∧ s.abandoned (.thread .turn) = [] ∧
      s.NoLostWakeup ∧ (s'.NoLostWakeup ↔ s.signalsAbandoned (.thread .turn)) := by
  have hx : ((run signalsAbandoned (draining [liveData, staleClose] ++ [.thread .turn])).bind
      fun s => (step s (.thread .turn)).map fun _ => s.abandoned (.thread .turn)) = some [] := by
    decide +kernel
  obtain ⟨s, hs, hx⟩ := Option.bind_eq_some_iff.mp hx
  obtain ⟨s', hs', hx⟩ := Option.map_eq_some_iff.mp hx
  exact ⟨s, s', hs, hs', hx, noLostWakeup_iff (Reachable.of_run (fun _ _ h => h) hs) hs'⟩

/-- The data behind the stale close waits in the queue, and nothing will wake the relay up. -/
theorem staleFirst_lost : ¬ ∀ s : RelayRun, Reachable (fun _ _ => True) s → s.NoLostWakeup := by
  intro h
  have hx : (run (fun _ _ => true) (draining [staleClose, liveData] ++ [.thread .turn])).map
      (fun s => (s.relay.phase, s.closeReq || s.relay.atomicClose, s.relay.outbound,
        s.relay.wakeupPending || decide (0 < s.putting))) =
      some (.top, false, [liveData], false) := by
    decide +kernel
  obtain ⟨s, hs, hx⟩ := Option.map_eq_some_iff.mp hx
  simp only [Prod.mk.injEq, Bool.or_eq_false_iff, decide_eq_false_iff_not] at hx
  obtain ⟨hp, hrun, ho, hw, hput⟩ := hx
  have hsig := h s (Reachable.of_run (fun _ _ _ => trivial) hs) hp hrun
  simp [Signalled, ho, hw, hput] at hsig

end RelayRun
end PortPort
