import PortPort.Server.FramesHandled
import PortPort.Server.ThreadsEnd
import PortPort.System.Owners

/-! # The answer to a DESTROY_RELAY

`process_msg` joins the thread of the relay, which is to close, while the relay and the other
threads go on. -/

namespace PortPort
open PortPortMessage

namespace ManagerRun
open Server (JoinsClosing Fit)
variable {s s' : ManagerRun} {e : Event} {port : Int} {rid : Nat} {recvq : Bytes}
  {log : List PortPortMessage}

/-- The management thread stands there with these bytes to be decoded, having sent these frames. -/
structure Stands (phase : ManagerPhase) (recvq : Bytes) (log : List PortPortMessage)
    (s : ManagerRun) : Prop where
  closing : JoinsClosing s.server
  fit : Fit s.server
  phase : s.server.mgr.phase = phase
  recvq : s.server.mgr.recvq = recvq
  sendLog : s.server.mgr.sendLog = log

theorem Stands.other {phase : ManagerPhase} (h : Stands phase recvq log s)
    (he : ∀ a, e ≠ .thread a) (hs : step s e = some s') : Stands phase recvq log s' := by
  obtain ⟨_, _, hm⟩ := step_others he hs
  refine ⟨step_joinsClosing h.closing hs, step_fit h.fit hs, ?_, ?_, ?_⟩
  · rw [hm]
    exact h.phase
  · rw [hm]
    exact h.recvq
  · rw [hm]
    exact h.sendLog

/-- The thread has answered: the relay's thread has ended, the port has left the table, and the
acknowledgement is the last frame sent. -/
structure Answered (port : Int) (rid : Nat) (recvq : Bytes) (log : List PortPortMessage)
    (s : ManagerRun) : Prop where
  joined : s.server.joined rid = true
  unregistered : s.server.mgr.relays.lookup port = none
  phase : s.server.mgr.phase = .recvLoop
  recvq : s.server.mgr.recvq = recvq
  sendLog : s.server.mgr.sendLog = log ++ [{ msgType := .destroyRelay, relayPort := port }]

theorem Stands.answers {a : Server.ManagerAction} (h : Stands (.joining port rid) recvq log s)
    (hs : step s (.thread a) = some s') : Answered port rid recvq log s' := by
  obtain ⟨server, hserver, rfl⟩ := Option.map_eq_some_iff.mp hs
  have hentry := h.closing.table.joining port rid h.phase
  obtain ⟨hlt, hport⟩ := h.closing.table.key port rid hentry
  have hfits : 0 ≤ port ∧ port < 65536 := hport ▸ h.fit.port hlt
  cases Server.mgrStep_moves hserver with
  | destroys hp hj hr =>
    cases hp.symm.trans h.phase
    refine ⟨?_, ?_, Server.destroyed_goes hfits, ?_, ?_⟩
    · rw [Server.joined_iff_togo] at hj ⊢
      rw [hr.replied.relay]
      exact hj
    · rw [hr.replied.relays]
      exact AList.lookup_erase ..
    · rw [hr.replied.recvq]
      exact h.recvq
    · have hwf : WellFormed { msgType := .destroyRelay, relayPort := port } :=
        ⟨rfl, hfits, rfl, by simp⟩
      refine (Server.reply_sends hwf).trans ?_
      exact congrArg (· ++ _) h.sendLog
  | _ => simp_all [h.phase]

/-- In `join`, the thread of the relay and then the management thread bring about the answer. -/
theorem joining_progress : Transition.Progress (Transition.Fires step) Thread.Own
    (Stands (.joining port rid) recvq log) (Answered port rid recvq log) waitsFor helper where
  enabled s hK _ := helper_enabled hK.closing (by rw [hK.phase]; rfl)
  helps s e s' hK _ hs he := by
    by_cases ht : ∃ a, e = .thread a
    · obtain ⟨a, rfl⟩ := ht
      exact .inl (hK.answers hs)
    · have ht (a : Server.ManagerAction) (ha : e = .thread a) : False := ht ⟨a, ha⟩
      exact .inr ⟨hK.other ht hs, (relay_helps hK.closing ht he hs).2⟩
  waits s e s' hK _ hs he := by
    have ht (a : Server.ManagerAction) (ha : e = .thread a) : False := by
      subst ha
      exact he (thread_helps hs ▸ trivial)
    exact .inr ⟨hK.other ht hs, .inr (step_others_togo hK.closing ht he hs).2⟩

theorem Stands.joins {a : Server.ManagerAction} {msg : PortPortMessage} {b : Bytes}
    (h : Stands .recvLoop b log s) (ht : msg.msgType = .destroyRelay)
    (hgrab : grabMsg b = .ok (msg, recvq))
    (hl : s.server.mgr.relays.lookup msg.relayPort = some rid)
    (hs : step s (.thread a) = some s') : Stands (.joining msg.relayPort rid) recvq log s' := by
  have hclosing := step_joinsClosing h.closing hs
  have hfit := step_fit h.fit hs
  obtain ⟨server, hserver, rfl⟩ := Option.map_eq_some_iff.mp hs
  obtain ⟨results, rfl, hturn⟩ := Server.mgrStep_recvLoop h.phase hserver
  have hq : s.server.mgr.recvq ≠ [] := by
    rw [h.recvq]
    rintro rfl
    cases hgrab
  unfold Server.recvTurn at hturn
  rw [if_neg hq, h.recvq, hgrab] at hturn
  simp only [Server.processMsg, ht, Server.withMgr_mgr, hl, Option.some.injEq] at hturn
  subst hturn
  exact ⟨hclosing, hfit, rfl, rfl, h.sendLog⟩

/-- In the receive loop, the management thread comes to the frame at the front of `recvq`. -/
theorem recvLoop_progress {msg : PortPortMessage} {b : Bytes} (ht : msg.msgType = .destroyRelay)
    (hgrab : grabMsg b = .ok (msg, recvq)) : Transition.Progress (Transition.Fires step) Thread.Own
    (fun s => Stands .recvLoop b log s ∧ s.server.mgr.relays.lookup msg.relayPort = some rid)
    (Stands (.joining msg.relayPort rid) recvq log) (fun _ => 0) fun _ => .manager where
  enabled s hK _ := by
    refine manager_enabled (by rw [hK.1.phase]; rfl) ?_
    simp only [waitsFor, hK.1.phase]
  helps s e s' hK _ hs he := by
    cases e with
    | thread a => exact .inl (hK.1.joins ht hgrab hK.2 hs)
    | _ => cases he
  waits s e s' hK _ hs he := by
    have ht (a : Server.ManagerAction) (ha : e = .thread a) : False := by
      subst ha
      exact he trivial
    obtain ⟨_, _, hm⟩ := step_others ht hs
    exact .inr ⟨⟨hK.1.other ht hs, by rw [hm]; exact hK.2⟩, .inr ⟨rfl, rfl⟩⟩

theorem Reachable.fit {P : ManagerRun → Event → Prop} (h : Reachable P s) : Fit s.server := by
  apply h.invariant (J := fun s => Fit s.server)
  · rintro _ ⟨portRange, rfl⟩
    exact ⟨fun hi => absurd hi (Nat.not_lt_zero _), fun hi => absurd hi (Nat.not_lt_zero _),
      fun hi => absurd hi (Nat.not_lt_zero _), by simp [start]⟩
  · exact fun _ _ _ hI _ hs => step_fit hI hs

variable {ρ : Transition.Run (Transition.Fires step)} {i : ℕ}

/-- **Every DESTROY_RELAY of a registered relay is answered**, in every fair run: at some time
behind the frame the relay's thread has ended, its port has left the table, and the acknowledgement
is the next frame sent. -/
theorem destroy_answered {msg : PortPortMessage} (h0 : Reachable (fun _ _ => True) (ρ.state 0))
    (hfair : ∀ p : Thread, ρ.Fair p.Own) (hp : (ρ.state i).server.mgr.phase = .recvLoop)
    (hgrab : grabMsg (ρ.state i).server.mgr.recvq = .ok (msg, recvq))
    (ht : msg.msgType = .destroyRelay)
    (hl : (ρ.state i).server.mgr.relays.lookup msg.relayPort = some rid) :
    ∃ j ≥ i, Answered msg.relayPort rid recvq (ρ.state i).server.mgr.sendLog (ρ.state j) := by
  have hstands : Stands .recvLoop (ρ.state i).server.mgr.recvq (ρ.state i).server.mgr.sendLog
      (ρ.state i) :=
    ⟨fair_joinsClosing h0 i, Reachable.fit (ρ.reach (fun _ => trivial) h0 i), hp, rfl, rfl⟩
  obtain ⟨j, hj, hjoin⟩ := (recvLoop_progress ht hgrab).leadsTo hfair ⟨hstands, hl⟩
  obtain ⟨k, hk, hanswered⟩ := joining_progress.leadsTo hfair hjoin
  exact ⟨k, hj.trans hk, hanswered⟩

/-- The client asks for a relay that listens to be destroyed. -/
def destroys : List Event :=
  oneRelay ++ [.relay 0 (.listen (.ok ()))] ++ received [64, 2, 1, 15, 160]

/-- The relay ends, the frame is answered, and the service is shut down. -/
def joins : List Event :=
  [.thread (.recvTurn []), .relay 0 .turn, .relay 0 .turn, .thread .turn, .thread (.recvTurn []),
    .thread .turn, .shutdown, .thread .turn, .thread .turn]

theorem destroy_answered_one : ∃ ρ : Transition.Run (Transition.Fires step),
    (ρ.state 0).server.mgr.phase = .recvLoop ∧ (ρ.state 0).server.nrelays = 1 ∧
    ∃ j ≥ 0, Answered 4000 0 [] (ρ.state 0).server.mgr.sendLog (ρ.state j) := by
  have hrun : (run (fun _ _ => true) destroys).any (fun s =>
      s.server.mgr.phase = .recvLoop ∧ s.server.nrelays = 1 ∧
      s.server.mgr.recvq = [64, 2, 1, 15, 160] ∧ s.server.mgr.relays.lookup 4000 = some 0 ∧
      (Transition.exec step (fun _ _ => true) s joins).any rests = true) = true := by
    decide +kernel
  obtain ⟨s, hs, hseen⟩ := (Option.any_eq_true ..).mp hrun
  obtain ⟨hp, hone, hq, hl, hrests⟩ := of_decide_eq_true hseen
  obtain ⟨ρ, rfl, hfair⟩ := exists_fair_run hrests
  have hgrab : grabMsg (ρ.state 0).server.mgr.recvq =
      .ok ({ msgType := .destroyRelay, relayPort := 4000 }, []) := by
    rw [hq]
    decide +kernel
  exact ⟨ρ, hp, hone, destroy_answered (.of_run (fun _ _ _ => trivial) hs) hfair hp hgrab rfl hl⟩

end ManagerRun
end PortPort
