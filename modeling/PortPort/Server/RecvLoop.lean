import PortPort.Common.RecvLoop
import PortPort.Server.ManagerRun

/-! # The receive loop of `relayMgmt`

How the loop goes on behind an exception and behind an announcement. -/

namespace PortPort
open PortPortMessage

/-- In the receive loop, between its turns or within one. -/
def ManagerPhase.draining : ManagerPhase → Bool
  | .recvLoop | .creating _ | .joining _ _ => true
  | _ => false

namespace Server
open Relay (BindResult)
variable {s s' : Server}

/-- The `except` clause for the exception does not break out of the receive loop. -/
def loops : PyError → Bool
  | .portPortBadVersion _ | .portPortUnsupportedMsgType _ => true
  | _ => false

theorem announce_opens {rid : Nat} (hsck : (s.relay rid).sck ≠ .closed)
    (hp : 0 ≤ (s.relay rid).identifyingPort ∧ (s.relay rid).identifyingPort < 65536) :
    (s.announce rid).mgr.sendLog = s.mgr.sendLog ++
      [{ msgType := .openRelay, relayPort := (s.relay rid).identifyingPort }] := by
  unfold announce Relay.getPort
  rw [if_neg hsck]
  exact reply_sends ⟨rfl, hp, rfl, nofun⟩

theorem announce_breaks {rid : Nat} (hsck : (s.relay rid).sck = .closed) :
    s.announce rid = s.breakRecv := by
  unfold announce Relay.getPort
  rw [if_pos hsck]
  rfl

/-- A version that is not supported: the loop goes on with the same buffer. -/
theorem recvExcept_loops {e : PyError} (h : loops e = true) :
    (s.recvExcept e).mgr.phase = .recvLoop := by
  rcases recvExcept_cases s e with ⟨err, m, -, he⟩ | ⟨-, hversion, htype⟩
  · rw [he]
    rfl
  · cases e with
    | portPortBadVersion text => exact absurd rfl (hversion text)
    | portPortUnsupportedMsgType text => exact absurd rfl (htype text)
    | _ => cases h

/-- Any other exception: the loop is left as if the frame were cut short. -/
theorem recvExcept_breaks {e : PyError} (h : loops e = false) : s.recvExcept e = s.breakRecv := by
  unfold recvExcept
  cases e with
  | portPortBadVersion | portPortUnsupportedMsgType => cases h
  | _ => rfl

theorem mgrStep_recvLoop (hp : s.mgr.phase = .recvLoop) {a : ManagerAction}
    (h : s.mgrStep a = some s') :
    ∃ results, a = .recvTurn results ∧ s.recvTurn results = some s' := by
  cases a with
  | recvTurn results => exact ⟨results, rfl, (mgrStep_recvTurn h).2.2⟩
  | _ => simp only [mgrStep, hp, reduceCtorEq] at h

end Server
end PortPort
