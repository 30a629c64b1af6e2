import PortPort.Common.RecvLoop
import PortPort.Common.Tokens
import PortPort.Client.RemoteRun

/-! # Passes of the receive loop of `create_remote_proxy`

`Drain` follows the remote proxy thread through `while len(recvq) > 0`, among the steps of the
other threads, and counts the iterations. -/

namespace PortPort
open PortPortMessage

namespace Client
variable {c c' : Client} {a : RemoteAction}

/-- A turn of the loop takes a frame off `recvq` or leaves the loop. -/
theorem remoteStep_recvLoop (hp : c.remote.phase = .recvLoop) (h : c.remoteStep a = some c') :
    a = .turn ∧ ((c'.remote.phase = .recvLoop ∧
      ∃ msg, grabMsg c.remote.recvq = .ok (msg, c'.remote.recvq)) ∨
      c'.remote.phase = .batch RemoteProxy.BOUNDED_BATCH) := by
  cases remoteStep_moves h with
  | @takes msg recvq _ hgrab =>
    refine ⟨rfl, .inl ⟨?_, msg, ?_⟩⟩
    · rw [processMsg_remote]
      exact hp
    · rw [processMsg_remote]
      exact hgrab
  | breaks => exact ⟨rfl, .inr rfl⟩
  | leaves hph | selects hph | relayIo hph | wakeupRead hph | dispatched hph | batch hph
  | joined hph => cases hp.symm.trans hph

end Client

namespace RemoteRun

/-- The body of the loop is entered. -/
def Iterates (s : RemoteRun) (e : Event) : Prop :=
  s.client.remote.phase = .recvLoop ∧ e = .thread .turn ∧ s.client.remote.recvq ≠ []

/-- From `s`, the thread has begun so many iterations of the loop and has come to this state, where
it may have left the loop. -/
inductive Drain (s : RemoteRun) : Nat → RemoteRun → Prop
  | start : Drain s 0 s
  | iterate (h : Drain s n t) (hi : t.Iterates e) (hs : step t e = some t') : Drain s (n + 1) t'
  | other (h : Drain s n t) (hp : t.client.remote.phase = .recvLoop) (hi : ¬ t.Iterates e)
      (hs : step t e = some t') : Drain s n t'

variable {s s' t : RemoteRun} {e : Event} {n : Nat}

/-- An iteration takes three bytes off `recvq`, or it leaves the loop. -/
theorem iterate_shrinks (hi : s.Iterates e) (h : step s e = some s') :
    s'.client.remote.phase = .recvLoop ∧
      s'.client.remote.recvq.length + 3 ≤ s.client.remote.recvq.length ∨
    s'.client.remote.phase = .batch RemoteProxy.BOUNDED_BATCH := by
  obtain ⟨hp, rfl, -⟩ := hi
  obtain ⟨client, hclient, rfl⟩ := Option.map_eq_some_iff.mp h
  obtain ⟨-, ⟨hph, msg, hgrab⟩ | hph⟩ := Client.remoteStep_recvLoop hp hclient
  · exact .inl ⟨hph, deserialize_shrinks hgrab⟩
  · exact .inr hph

/-- Any other step in the loop leaves `recvq` as it is, or it is the test that ends the loop. -/
theorem other_keeps (hp : s.client.remote.phase = .recvLoop) (hi : ¬ s.Iterates e)
    (h : step s e = some s') : s'.client.remote.phase = .recvLoop ∧
      s'.client.remote.recvq = s.client.remote.recvq ∨
    s'.client.remote.phase = .batch RemoteProxy.BOUNDED_BATCH := by
  rcases step_cases h with ⟨a, rfl, ha, -⟩ | ⟨-, -, puts, hm, -⟩ | ⟨-, -, hm⟩ | ⟨-, rfl⟩
  · obtain ⟨rfl, ⟨-, msg, hgrab⟩ | hph⟩ := Client.remoteStep_recvLoop hp ha
    · have hnil : s.client.remote.recvq = [] := not_not.mp fun hne => hi ⟨hp, rfl, hne⟩
      rw [hnil] at hgrab
      cases hgrab
    · exact .inr hph
  · rw [hm]
    exact .inl ⟨hp, rfl⟩
  · rw [hm]
    exact .inl ⟨hp, rfl⟩
  · exact .inl ⟨hp, rfl⟩

/-- Every iteration but the last has taken three bytes off `recvq`. -/
theorem Drain.iterations_le (h : Drain s n t) :
    3 * n + t.client.remote.recvq.length ≤ s.client.remote.recvq.length ∨
    t.client.remote.phase ≠ .recvLoop ∧ 3 * n ≤ s.client.remote.recvq.length + 3 := by
  induction h with
  | start => exact .inl (by omega)
  | @iterate n t e t' _ hi hs ih =>
    have ih := ih.resolve_right fun hleft => hleft.1 hi.1
    rcases iterate_shrinks hi hs with ⟨-, hlen⟩ | hph
    · exact .inl (by omega)
    · exact .inr ⟨by rw [hph]; nofun, by omega⟩
  | @other n t e t' _ hp hi hs ih =>
    have ih := ih.resolve_right fun hleft => hleft.1 hp
    rcases other_keeps hp hi hs with ⟨-, hrecvq⟩ | hph
    · exact .inl (hrecvq ▸ ih)
    · exact .inr ⟨by rw [hph]; nofun, by omega⟩

/-- The thread can always take its turn in the loop, which enters the body again or leaves the
loop. -/
theorem turn_possible (hp : s.client.remote.phase = .recvLoop) : ∃ s',
    step s (.thread .turn) = some s' ∧
      (s.Iterates (.thread .turn) ∨ s'.client.remote.phase ≠ .recvLoop) := by
  refine ⟨{ s with client := s.client.recvTurn }, by simp [step, Client.remoteStep, hp], ?_⟩
  by_cases hq : s.client.remote.recvq = []
  · refine .inr ?_
    rw [Client.recvTurn, if_pos hq]
    intro hp'
    cases hp'
  · exact .inl ⟨hp, rfl, hq⟩

/-- Alone, the thread comes out of the loop. -/
theorem Drain.leaves (h : Drain s n t) (hp : t.client.remote.phase = .recvLoop) :
    ∃ n' t', Drain s n' t' ∧ t'.client.remote.phase ≠ .recvLoop := by
  -- the bytes in `recvq` are the measure
  induction hlen : t.client.remote.recvq.length using Nat.strongRecOn generalizing n t with
  | _ len ih =>
    obtain ⟨t', ht', hi⟩ := turn_possible hp
    by_cases hit : t.Iterates (.thread .turn)
    · rcases iterate_shrinks hit ht' with ⟨hp', hlen'⟩ | hph
      · exact ih _ (by omega) (h.iterate hit ht') hp' rfl
      · exact ⟨_, _, h.iterate hit ht', by rw [hph]; nofun⟩
    · exact ⟨_, _, h.other hp hit ht', hi.resolve_left hit⟩

/-- **The receive loop of the client ends**: what the decoder leaves of a buffer is a suffix of it
that is at least three bytes shorter, so a pass of the loop has at most a third as many iterations
as there are bytes in `recvq`, and one more; in the loop the thread can always take its turn, which
is an iteration or leaves the loop. -/
theorem recvLoop_bounded :
    (∀ b m rest, deserialize b = .ok (m, rest) → rest <:+ b ∧ rest.length + 3 ≤ b.length) ∧
    ∀ s : RemoteRun, s.client.remote.phase = .recvLoop →
      (∀ n t, Drain s n t → n ≤ s.client.remote.recvq.length / 3 + 1 ∧
        (t.client.remote.phase = .recvLoop → ∃ t', step t (.thread .turn) = some t' ∧
          (t.Iterates (.thread .turn) ∨ t'.client.remote.phase ≠ .recvLoop))) ∧
      ∃ n t, Drain s n t ∧ t.client.remote.phase ≠ .recvLoop := by
  refine ⟨fun b m rest h => ⟨deserialize_suffix h, deserialize_shrinks h⟩, fun s hp =>
    ⟨fun n t h => ⟨?_, turn_possible⟩, Drain.start.leaves hp⟩⟩
  rcases h.iterations_le with hle | ⟨-, hle⟩ <;> omega

/-- An AUTH frame whose declared length points past the end of `recvq`. -/
theorem recvLoop_bounded_token :
    let b : Bytes := [64, 8, 1, 0, 9]
    ([] <:+ b ∧ ([] : Bytes).length + 3 ≤ b.length) ∧
    ∃ s, run (fun _ _ => true) [.thread (.select [(.client, .r)]),
        .thread (.relayIo ⟨.error .blockingIo, .ok b⟩), .thread .turn] = some s ∧
      s.client.remote.recvq = b ∧
      (∀ n t, Drain s n t → n ≤ s.client.remote.recvq.length / 3 + 1 ∧
        (t.client.remote.phase = .recvLoop → ∃ t', step t (.thread .turn) = some t' ∧
          (t.Iterates (.thread .turn) ∨ t'.client.remote.phase ≠ .recvLoop))) ∧
      ∃ n t, Drain s n t ∧ t.client.remote.phase ≠ .recvLoop := by
  have hb := deserialize_token (n := 9) [] (by decide)
  rw [List.take_nil, decodeUtf8_iff (s := "").mpr (by simp [encodeUtf8_eq])] at hb
  exact ⟨recvLoop_bounded.1 _ _ _ hb, _, rfl, rfl, recvLoop_bounded.2 _ rfl⟩

end RemoteRun
end PortPort
