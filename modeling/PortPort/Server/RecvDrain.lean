import PortPort.Common.RoundTrip
import PortPort.Server.RecvLoop
import PortPort.Server.RelaySocket

/-! # Passes of the receive loop

`Drain` follows the management thread through `while len(recvq) > 0`, among the steps of the other
threads, and counts the iterations and the calls of `process_msg`. -/

namespace PortPort
open PortPortMessage
open Relay (BindResult)

namespace Server
variable {s s' : Server} {msg : PortPortMessage} {results : List BindResult}

theorem loops_eq_violation (e : PyError) : loops e = e.violation := by cases e <;> rfl

theorem processMsg_recvq (h : s.processMsg msg results = some s') :
    s'.mgr.recvq = s.mgr.recvq := by
  cases processMsg_processes h with
  | replies hr => exact hr.replied.recvq
  | _ => rfl

theorem announce_recvq (s : Server) (rid : Nat) : (s.announce rid).mgr.recvq = s.mgr.recvq :=
  (announce_replied ..).recvq

theorem destroyed_recvq (s : Server) (port : Int) :
    (s.destroyed port).mgr.recvq = s.mgr.recvq := (reply_replied ..).recvq

/-- An iteration of the loop either hands a message to `process_msg` or comes to an `except`
clause. -/
theorem recvTurn_cases (hq : s.mgr.recvq ≠ []) (h : s.recvTurn results = some s') :
    (∃ msg recvq, grabMsg s.mgr.recvq = .ok (msg, recvq) ∧ s'.mgr.recvq = recvq ∧
      (s.withMgr { s.mgr with recvq }).processMsg msg results = some s') ∨
    ∃ e, grabMsg s.mgr.recvq = .error e ∧ s' = s.recvExcept e := by
  unfold recvTurn at h
  rw [if_neg hq] at h
  split at h
  · rename_i msg recvq hgrab
    exact .inl ⟨msg, recvq, hgrab, processMsg_recvq h, h⟩
  · rename_i e hgrab
    cases h
    exact .inr ⟨e, hgrab, rfl⟩

/-- With such results an iteration is possible. -/
theorem recvTurn_possible (s : Server) : ∃ results s', results.all s.bindAllowed = true ∧
    s.recvTurn results = some s' := by
  obtain ⟨results, hr, hinit⟩ := Relay.init_possible s.portRange
  have hall : results.all s.bindAllowed = true := by
    rw [List.all_eq_true]
    intro r hmem
    obtain ⟨e, rfl⟩ := hr r hmem
    rfl
  refine ⟨results, ?_⟩
  unfold recvTurn
  split
  · exact ⟨_, hall, rfl⟩
  split
  · have hsome : ((s.withMgr { s.mgr with recvq := ‹Bytes› }).processMsg ‹_› results).isSome := by
      unfold processMsg
      split
      · split
        · rename_i hnone
          simp only [withMgr] at hnone
          simp [hnone] at hinit
        all_goals rfl
      all_goals first | rfl | split <;> rfl
    obtain ⟨s', hs'⟩ := Option.isSome_iff_exists.mp hsome
    exact ⟨s', hall, hs'⟩
  · exact ⟨_, hall, rfl⟩

end Server

namespace ManagerRun

/-- The body of the loop is entered. -/
def Iterates (s : ManagerRun) (e : Event) : Prop :=
  (∃ results, e = .thread (.recvTurn results)) ∧ s.server.mgr.recvq ≠ []

/-- What `grab_msg` takes off `recvq`, if it does not raise. -/
def grabbed (s : ManagerRun) : List PortPortMessage :=
  match grabMsg s.server.mgr.recvq with
  | .ok (msg, _) => [msg]
  | .error _ => []

/-- From `s`, by steps that meet `P`, the thread has begun so many iterations of the loop, has
called `process_msg` on these messages and has come to this state, where it may have left the
loop. -/
inductive Drain (P : ManagerRun → Event → Prop) (s : ManagerRun) :
    Nat → List PortPortMessage → ManagerRun → Prop
  | start : Drain P s 0 [] s
  | iterate (h : Drain P s n calls t) (hp : P t e) (hi : t.Iterates e)
      (hs : step t e = some t') : Drain P s (n + 1) (calls ++ t.grabbed) t'
  | other (h : Drain P s n calls t) (hd : t.server.mgr.phase.draining = true) (hp : P t e)
      (hi : ¬ t.Iterates e) (hs : step t e = some t') : Drain P s n calls t'

variable {P : ManagerRun → Event → Prop} {s s' t t' : ManagerRun} {e : Event} {n : Nat}
  {calls : List PortPortMessage}

theorem step_recvTurn {results : List BindResult}
    (h : step s (.thread (.recvTurn results)) = some s') :
    s.server.mgr.phase = .recvLoop ∧ results.all s.server.bindAllowed = true ∧
      s.server.recvTurn results = some s'.server := by
  obtain ⟨server, hm, rfl⟩ := Option.map_eq_some_iff.mp h
  exact Server.mgrStep_recvTurn hm

/-- What a step does while the thread is in the loop and does not enter its body. -/
theorem step_other (hd : s.server.mgr.phase.draining = true) (hi : ¬ s.Iterates e)
    (h : step s e = some s') :
    (s.server.mgr.phase = .recvLoop ∧ s.server.mgr.recvq = [] ∧ s'.server = s.server.breakRecv) ∨
    (∃ rid, e = .thread .turn ∧ s.server.mgr.phase = .creating rid ∧
      s'.server = s.server.announce rid) ∨
    (∃ port rid, e = .thread .turn ∧ s.server.mgr.phase = .joining port rid ∧
      s'.server = s.server.destroyed port) ∨
    ((∀ a, e ≠ .thread a) ∧ ∃ inboundData wakeupPending,
      s'.server.mgr = { s.server.mgr with inboundData, wakeupPending }) := by
  rcases step_cases h with ⟨a, rfl, ha, -⟩ | ⟨⟨rid, a, rfl⟩, puts, hm, -⟩ | ⟨rfl, hm⟩ | ⟨rfl, hm, -⟩
  · cases hph : s.server.mgr.phase with
    | recvLoop =>
      obtain ⟨results, rfl, hr⟩ := Server.mgrStep_recvLoop hph ha
      have hq : s.server.mgr.recvq = [] := not_not.mp fun hq => hi ⟨⟨results, rfl⟩, hq⟩
      unfold Server.recvTurn at hr
      rw [if_pos hq, Option.some.injEq] at hr
      exact .inl ⟨rfl, hq, hr.symm⟩
    | creating rid =>
      simp only [Server.mgrStep, hph] at ha
      cases a with
      | turn =>
        exact .inr (.inl ⟨rid, rfl, rfl, (Option.some.inj ha).symm⟩)
      | _ => cases ha
    | joining port rid =>
      simp only [Server.mgrStep, hph] at ha
      cases a with
      | turn =>
        simp only [Option.ite_none_right_eq_some, Option.some.injEq] at ha
        exact .inr (.inr (.inl ⟨port, rid, rfl, rfl, ha.2.symm⟩))
      | _ => cases ha
    | _ => simp [hph, ManagerPhase.draining] at hd
  · exact .inr (.inr (.inr ⟨by simp, _, _, hm⟩))
  · exact .inr (.inr (.inr ⟨by simp, _, _, hm⟩))
  · exact .inr (.inr (.inr ⟨by simp, _, _, hm⟩))

/-- An iteration takes bytes off `recvq`, leaves the loop, or does neither on a version that is
not supported. -/
theorem iterate_cases (hi : s.Iterates e) (h : step s e = some s') :
    (∃ msg, grabMsg s.server.mgr.recvq = .ok (msg, s'.server.mgr.recvq)) ∨
    (∃ x, grabMsg s.server.mgr.recvq = .error x ∧ x.violation = false) ∧
      s'.server = s.server.breakRecv ∨
    BadVersion s.server.mgr.recvq ∧ s'.server.mgr.phase = .recvLoop ∧
      s'.server.mgr.recvq = s.server.mgr.recvq := by
  obtain ⟨⟨results, rfl⟩, hq⟩ := hi
  obtain ⟨-, -, hturn⟩ := step_recvTurn h
  rcases Server.recvTurn_cases hq hturn with ⟨msg, recvq, hgrab, hrecvq, -⟩ | ⟨x, hgrab, hs'⟩
  · exact .inl ⟨msg, hrecvq ▸ hgrab⟩
  · by_cases hbad : BadVersion s.server.mgr.recvq
    · obtain ⟨text, hraise⟩ := hbad.deserialize
      cases hgrab.symm.trans hraise
      rw [hs']
      exact .inr (.inr ⟨hbad, Server.recvExcept_loops rfl, (Server.recvExcept_replied ..).recvq⟩)
    · have hx := deserialize_ordinary hbad x hgrab
      rw [Server.recvExcept_breaks ((Server.loops_eq_violation x).trans hx)] at hs'
      exact .inr (.inl ⟨⟨x, hgrab, hx⟩, hs'⟩)

theorem other_recvq (hd : s.server.mgr.phase.draining = true) (hi : ¬ s.Iterates e)
    (h : step s e = some s') : s'.server.mgr.recvq = s.server.mgr.recvq := by
  rcases step_other hd hi h with ⟨-, -, hs'⟩ | ⟨rid, -, -, hs'⟩ | ⟨port, rid, -, -, hs'⟩ |
    ⟨-, _, _, hs'⟩
  · rw [hs']
    rfl
  · rw [hs']
    exact Server.announce_recvq ..
  · rw [hs']
    exact Server.destroyed_recvq ..
  · rw [hs']

/-! ## The loop ends -/

/-- The iteration takes at least a byte off `recvq`, or it leaves the loop. -/
def Advances (s s' : ManagerRun) : Prop :=
  s'.server.mgr.recvq.length < s.server.mgr.recvq.length ∨
    s'.server.mgr.phase.draining = false

theorem iterate_advances_iff (hi : s.Iterates e) (h : step s e = some s') :
    Advances s s' ↔ ¬ BadVersion s.server.mgr.recvq := by
  rcases iterate_cases hi h with ⟨msg, hgrab⟩ | ⟨⟨x, hgrab, hx⟩, hs'⟩ | ⟨hbad, hph, hrecvq⟩
  · have hlen := deserialize_shrinks hgrab
    refine iff_of_true (.inl (by omega)) fun hbad => ?_
    obtain ⟨text, hraise⟩ := hbad.deserialize
    cases hgrab.symm.trans hraise
  · refine iff_of_true (.inr (by rw [hs']; rfl)) fun hbad => ?_
    obtain ⟨text, hraise⟩ := hbad.deserialize
    cases hgrab.symm.trans hraise
    cases hx
  · refine iff_of_false ?_ (not_not.mpr hbad)
    rintro (hlt | hleft)
    · exact absurd hlt (by rw [hrecvq]; exact Nat.lt_irrefl _)
    · rw [hph] at hleft
      cases hleft

/-- Where the body of the loop is entered, `recvq` holds no frame of another version. -/
def SameVersion (s : ManagerRun) (e : Event) : Prop :=
  s.Iterates e → ¬ BadVersion s.server.mgr.recvq

/-- The bytes left in `recvq` pay for the iterations to come. -/
theorem Drain.turns_le (h : Drain SameVersion s n calls t) :
    n + t.server.mgr.recvq.length ≤ s.server.mgr.recvq.length ∨
      t.server.mgr.phase.draining = false ∧ n ≤ s.server.mgr.recvq.length := by
  induction h with
  | start => exact .inl (by omega)
  | @iterate n calls t e t' _ hp hi hs ih =>
    have hph : t.server.mgr.phase = .recvLoop := by
      obtain ⟨⟨results, rfl⟩, -⟩ := hi
      exact (step_recvTurn hs).1
    have hpos : 0 < t.server.mgr.recvq.length := List.length_pos_iff.mpr hi.2
    have ih := ih.resolve_right (by simp [hph, ManagerPhase.draining])
    rcases (iterate_advances_iff hi hs).mpr (hp hi) with hlt | hleft
    · exact .inl (by omega)
    · exact .inr ⟨hleft, by omega⟩
  | @other n calls t e t' _ hd hp hi hs ih =>
    rw [other_recvq hd hi hs]
    exact .inl (ih.resolve_right (by simp [hd]))

/-- On a version that is not supported the loop goes on for good. -/
theorem Drain.stuck (h : Drain P s n calls t) (hph : s.server.mgr.phase = .recvLoop)
    (hbad : BadVersion s.server.mgr.recvq) :
    t.server.mgr.phase = .recvLoop ∧ t.server.mgr.recvq = s.server.mgr.recvq := by
  induction h with
  | start => exact ⟨hph, rfl⟩
  | @iterate n calls t e t' _ hp hi hs ih =>
    rcases iterate_cases hi hs with ⟨msg, hgrab⟩ | ⟨⟨x, hgrab, hx⟩, -⟩ | ⟨-, hph', hrecvq⟩
    · obtain ⟨text, hraise⟩ := (ih.2 ▸ hbad).deserialize
      cases hgrab.symm.trans hraise
    · obtain ⟨text, hraise⟩ := (ih.2 ▸ hbad).deserialize
      cases hgrab.symm.trans hraise
      cases hx
    · exact ⟨hph', hrecvq.trans ih.2⟩
  | @other n calls t e t' _ hd hp hi hs ih =>
    refine ⟨?_, (other_recvq hd hi hs).trans ih.2⟩
    rcases step_other hd hi hs with ⟨-, hq, -⟩ | ⟨rid, -, hc, -⟩ | ⟨port, rid, -, hj, -⟩ |
      ⟨-, _, _, hs'⟩
    · obtain ⟨_, _, _, hb, -⟩ := hbad
      rw [ih.2, hb] at hq
      cases hq
    · cases ih.1.symm.trans hc
    · cases ih.1.symm.trans hj
    · rw [hs']
      exact ih.1

/-- The thread can go on, or it waits in `join`. -/
def Moves (s : ManagerRun) : Prop :=
  (∃ a s', step s (.thread a) = some s') ∨ ∃ port rid, s.server.mgr.phase = .joining port rid

theorem draining_moves (hd : s.server.mgr.phase.draining = true) : s.Moves := by
  cases hph : s.server.mgr.phase with
  | recvLoop =>
    obtain ⟨results, server, hall, hturn⟩ := s.server.recvTurn_possible
    refine .inl ⟨.recvTurn results, { s with server }, ?_⟩
    simp [step, Server.mgrStep, hph, hall, hturn]
  | creating rid =>
    exact .inl ⟨.turn, { s with server := s.server.announce rid },
      by simp [step, Server.mgrStep, hph]⟩
  | joining port rid => exact .inr ⟨port, rid, hph⟩
  | _ => simp [hph, ManagerPhase.draining] at hd

/-- **The receive loop ends unless it meets another version**: an iteration takes bytes off `recvq`
or leaves the loop exactly when `recvq` does not begin with a header of another version. If no
iteration begins so, there are no more iterations than bytes in `recvq`, and the thread can always
go on or waits for a relay to end; if one does, the loop is never left. -/
theorem recvLoop_ends (hph : s.server.mgr.phase = .recvLoop) :
    (∀ e s', s.Iterates e → step s e = some s' →
      (Advances s s' ↔ ¬ BadVersion s.server.mgr.recvq)) ∧
    (∀ n calls t, Drain SameVersion s n calls t →
      n ≤ s.server.mgr.recvq.length ∧ (t.server.mgr.phase.draining = true → t.Moves)) ∧
    (BadVersion s.server.mgr.recvq → ∀ n calls t, Drain (fun _ _ => True) s n calls t →
      t.server.mgr.phase = .recvLoop ∧ t.server.mgr.recvq = s.server.mgr.recvq) := by
  refine ⟨fun e s' hi h => iterate_advances_iff hi h, fun n calls t h => ⟨?_, draining_moves⟩,
    fun hbad n calls t h => h.stuck hph hbad⟩
  rcases h.turns_le with hle | ⟨-, hle⟩
  · omega
  · exact hle

/-- The client sends three bytes, and the thread comes to its receive loop. -/
def received (b : Bytes) : List Event :=
  [.thread (.select [(.client, .r)]), .thread (.clientIo ⟨.error .blockingIo, .ok b⟩),
    .thread .turn]

/-- A CREATE_RELAY frame of version 2. -/
theorem recvLoop_ends_version : ∃ s, run (fun _ _ => true) (received [64, 1, 2]) = some s ∧
    (∀ e s', s.Iterates e → step s e = some s' →
      (Advances s s' ↔ ¬ BadVersion s.server.mgr.recvq)) ∧
    (∀ n calls t, Drain SameVersion s n calls t →
      n ≤ s.server.mgr.recvq.length ∧ (t.server.mgr.phase.draining = true → t.Moves)) ∧
    (BadVersion s.server.mgr.recvq → ∀ n calls t, Drain (fun _ _ => True) s n calls t →
      t.server.mgr.phase = .recvLoop ∧ t.server.mgr.recvq = s.server.mgr.recvq) :=
  ⟨_, rfl, recvLoop_ends rfl⟩

/-- On such a frame an iteration takes nothing off `recvq` and does not leave the loop. -/
theorem version_not_advances : ¬ ∀ s e s', Reachable (fun _ _ => True) s → s.Iterates e →
    step s e = some s' → Advances s s' := by
  intro h
  obtain ⟨s, s', hrun, hs', hq⟩ : ∃ s s', run (fun _ _ => true) (received [64, 1, 2]) = some s ∧
      step s (.thread (.recvTurn [])) = some s' ∧ s.server.mgr.recvq = [64, 1, 2] :=
    ⟨_, _, rfl, rfl, rfl⟩
  have hreach := Reachable.of_run (P := fun _ _ => True) (fun _ _ _ => trivial) hrun
  have hi : s.Iterates (.thread (.recvTurn [])) := ⟨⟨[], rfl⟩, by simp [hq]⟩
  refine (iterate_advances_iff hi hs').mp (h s _ s' hreach hi hs') ?_
  rw [hq]
  exact ⟨.createRelay, 2, [], rfl, by decide⟩

end ManagerRun
end PortPort
