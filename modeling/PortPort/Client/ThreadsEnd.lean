import Mathlib.Data.Fintype.EquivFin
import Mathlib.Data.Prod.Lex
import PortPort.Lib.Progress
import PortPort.Client.LocalChanges
import PortPort.Client.RecvDrain

/-! # The end of the client's threads

Once the close event is set, the local proxy thread comes to the end of its pass, and behind it the
remote proxy thread, which joins it. -/

namespace PortPort
open PortPortMessage

namespace LocalProxy
variable {l l' : LocalProxy}

/-- The thread has ended. -/
def ended (l : LocalProxy) : Bool :=
  match l.phase with
  | .done | .crashed _ => true
  | _ => false

/-- The part of its pass that the thread is in when it is to close, and what is left of it. -/
def togo (l : LocalProxy) : ℕ ×ₗ ℕ :=
  toLex <| match l.phase with
    | .batch left => (4, left)
    | .select => (3, 0)
    | .dispatch events => (2, events.length)
    | .top => (1, 0)
    | .closing => (0, l.connections.size + 1)
    | .done | .crashed _ => (0, 0)

theorem cleanupSocket_connections {addr : Peer} (h : (l.cleanupSocket addr).raised = none) :
    (l.cleanupSocket addr).state.connections.size + 1 = l.connections.size := by
  rcases cleanupSocket_cases (l := l) addr with ⟨n, hn, -, hout⟩ | ⟨e, hout⟩
  · rw [hout]
    exact Dict.size_erase hn
  · rw [hout] at h
    cases h

theorem togo_after (out : Outcome LocalProxy) (phase : LocalPhase) {r : ℕ ×ₗ ℕ}
    (hphase : { out.state with phase }.togo < r) (hpos : toLex (0, 0) < r) :
    (after out phase).togo < r := by
  unfold after
  split
  · exact hphase
  · exact hpos

/-- Every step of a thread that is to close brings it nearer to its end. -/
theorem step_togo {a : LocalAction} {puts : List (Nat × QueuedRelayMessage)}
    (h : l.step true a = some (l', puts)) : l'.togo < l.togo := by
  cases step_moves h with
  | begins hp => simp [togo, hp, Prod.Lex.toLex_lt_toLex]
  | bounded hp | emptied hp | selects hp | wakeupRead hp | dispatched hp | ends hp =>
    simp [togo, hp, Prod.Lex.toLex_lt_toLex]
  | item hp | io hp =>
    apply togo_after <;> simp [togo, hp, Prod.Lex.toLex_lt_toLex]
  | drops hp _ _ hr =>
    have hsize := cleanupSocket_connections hr
    simp only [togo, cleanupSocket_phase, hp, Prod.Lex.toLex_lt_toLex]
    exact .inr ⟨trivial, by omega⟩
  | dropFails hp => simp [togo, hp, Prod.Lex.toLex_lt_toLex]

/-- There are a proxied connection not seen before and a descriptor that is free. -/
theorem exists_fresh (l : LocalProxy) : ∃ n fd, n ∉ l.created ∧ l.fdFree fd = true := by
  obtain ⟨n, hn⟩ := Infinite.exists_notMem_finset l.created.toFinset
  obtain ⟨fd, hfd⟩ := Infinite.exists_notMem_finset (l.created.map fun k => (l.conns k).fd).toFinset
  refine ⟨n, fd, by simpa using hn, ?_⟩
  simp only [List.mem_toFinset, List.mem_map, not_exists, not_and] at hfd
  simp only [fdFree, List.all_eq_true, Bool.or_eq_true, decide_eq_true_eq]
  exact fun k hk => .inr (hfd k hk)

/-- A thread that has not ended is able to take a step. -/
theorem exists_step (h : l.ended = false) (close : Bool) : ∃ a, (l.step close a).isSome := by
  cases hp : l.phase with
  | top => exact ⟨.turn, by simp [step, hp]⟩
  | batch left =>
    cases left with
    | zero => exact ⟨.turn, by simp [step, hp]⟩
    | succ left =>
      cases ht : l.toLocal with
      | nil => exact ⟨.turn, by simp [step, hp, ht]⟩
      | cons m toLocal =>
        obtain ⟨n, fd, hn, hfd⟩ := l.exists_fresh
        exact ⟨.item n { socket := .ok fd, connect := .ok () },
          by simp [step, hp, ht, socketAllowed, hn, hfd]⟩
  | select => exact ⟨.select [], by simp [step, hp, selectable]⟩
  | dispatch events =>
    cases events with
    | nil => exact ⟨.turn, by simp [step, hp]⟩
    | cons event events =>
      obtain ⟨key, mask⟩ := event
      cases key with
      | wakeup => exact ⟨.wakeupRead, by simp [step, hp]⟩
      | conn n =>
        exact ⟨.io ⟨.error .blockingIo, .error .blockingIo⟩,
          by simp [step, hp, recvAllowed, sendAllowed]⟩
  | closing =>
    refine ⟨.turn, ?_⟩
    simp only [step, hp]
    split
    · split <;> rfl
    · rfl
  | done => simp [ended, hp] at h
  | crashed e => simp [ended, hp] at h

theorem step_ended (h : l.ended = true) (close : Bool) (a : LocalAction) :
    l.step close a = none := by
  cases hp : l.phase with
  | done | crashed => simp only [step, hp]
  | _ => simp [ended, hp] at h

end LocalProxy

namespace RemoteProxy

/-- The thread has ended. -/
def ended (c : RemoteProxy) : Bool :=
  match c.phase with
  | .done | .crashed _ => true
  | _ => false

/-- A bound on the steps that the thread takes when it is to close. -/
def togo (c : RemoteProxy) : Nat :=
  match c.phase with
  | .top => 2
  | .dispatch events => (RECV_SIZE + 1) * events.length + c.recvq.length + BOUNDED_BATCH + 5
  | .recvLoop => c.recvq.length + BOUNDED_BATCH + 4
  | .batch left => left + 3
  | .joining => 1
  | .done | .crashed _ => 0

theorem handleRead_recvq_le {c : RemoteProxy} {recv : Except OSError Bytes}
    (h : recvAllowed recv = true) :
    (c.handleRead recv).state.recvq.length ≤ c.recvq.length + RECV_SIZE := by
  unfold handleRead
  split
  · split
    · exact Nat.le_add_right ..
    · simpa [recvAllowed] using h
  all_goals exact Nat.le_add_right ..

theorem handleRelay_recvq_le {c : RemoteProxy} {mask : Mask} {io : RelayIO}
    (h : recvAllowed io.recv = true) :
    (c.handleRelay mask io).state.recvq.length ≤ c.recvq.length + RECV_SIZE := by
  have hread {out : RemoteOutcome} (hq : out.state.recvq = c.recvq) :
      (if out.returned = false ∧ out.raised = none ∧ mask.read then out.state.handleRead io.recv
        else out : RemoteOutcome).state.recvq.length ≤ c.recvq.length + RECV_SIZE := by
    split
    · exact hq ▸ handleRead_recvq_le h
    · rw [hq]
      exact Nat.le_add_right ..
  apply hread
  split
  · exact handleWrite_recvq ..
  · rfl

theorem batchTurn_togo {c : RemoteProxy} {left : Nat} (hp : c.phase = .batch left) :
    (c.batchTurn left).togo < c.togo := by
  have htogo : c.togo = left + 3 := by simp only [togo, hp]
  rw [htogo]
  unfold batchTurn
  split
  · simp only [togo]
    omega
  split
  · simp only [togo]
    omega
  simp only
  split
  · simp only [togo]
    omega
  split
  · simp only [togo]
    omega
  · generalize enqueueSendq _ _ = out
    cases out.raised with
    | none =>
      simp only [togo]
      omega
    | some e =>
      simp only [togo]
      omega

end RemoteProxy

namespace Client
variable {c c' : Client}

/-- Every step of a thread that is to close brings it nearer to its end. -/
theorem remoteStep_togo {a : RemoteAction} (hc : c.close = true) (h : c.remoteStep a = some c') :
    c'.remote.togo < c.remote.togo := by
  cases remoteStep_moves h with
  | leaves hp | dispatched hp => simp [RemoteProxy.togo, hp, goto]
  | selects _ hnot => simp [hc] at hnot
  | @relayIo mask events io hp hio =>
    have hle : (c.remote.handleRelay mask io).state.recvq.length ≤
        c.remote.recvq.length + RECV_SIZE :=
      RemoteProxy.handleRelay_recvq_le ((Bool.and_eq_true ..).mp hio).2
    have htogo : c.remote.togo = (RECV_SIZE + 1) * (events.length + 1) + c.remote.recvq.length +
        RemoteProxy.BOUNDED_BATCH + 5 := by
      simp only [RemoteProxy.togo, hp, List.length_cons]
    rw [htogo, Nat.mul_succ]
    cases (c.remote.handleRelay mask io).raised with
    | none =>
      simp only [RemoteProxy.togo]
      omega
    | some e =>
      simp only [RemoteProxy.togo]
      omega
  | wakeupRead hp =>
    simp only [RemoteProxy.togo, hp, List.length_cons, Nat.mul_succ]
    omega
  | breaks hp =>
    simp only [RemoteProxy.togo, hp, goto]
    omega
  | takes hp hgrab =>
    have hshrinks := deserialize_shrinks hgrab
    rw [processMsg_remote]
    simp only [RemoteProxy.togo, hp]
    omega
  | batch hp => exact RemoteProxy.batchTurn_togo hp
  | joined hp => simp [RemoteProxy.togo, hp, goto]

theorem remoteStep_close {a : RemoteAction} (hc : c.close = true) (h : c.remoteStep a = some c') :
    c'.close = true := by
  cases remoteStep_moves h with
  | relayIo => simp [hc]
  | takes =>
    unfold processMsg
    split
    · exact hc
    · split
      · rfl
      · exact hc
  | _ => exact hc

/-- A thread that has not ended is able to take a step behind the end of the local proxy. -/
theorem exists_remoteStep (h : c.remote.ended = false) (hproxy : c.proxy.ended = true) :
    ∃ a, (c.remoteStep a).isSome := by
  cases hp : c.remote.phase with
  | top =>
    cases hc : c.close with
    | true => exact ⟨.turn, by simp [remoteStep, hp, hc]⟩
    | false => exact ⟨.select [], by simp [remoteStep, hp, hc, RemoteProxy.selectable]⟩
  | dispatch events =>
    cases events with
    | nil => exact ⟨.turn, by simp [remoteStep, hp]⟩
    | cons event events =>
      obtain ⟨key, mask⟩ := event
      cases key with
      | wakeup => exact ⟨.wakeupRead, by simp [remoteStep, hp]⟩
      | client =>
        exact ⟨.relayIo ⟨.error .blockingIo, .error .blockingIo⟩,
          by simp [remoteStep, hp, recvAllowed, sendAllowed]⟩
  | recvLoop => exact ⟨.turn, by simp [remoteStep, hp]⟩
  | batch left => exact ⟨.turn, by simp [remoteStep, hp]⟩
  | joining =>
    refine ⟨.turn, ?_⟩
    simp only [remoteStep, hp]
    split
    · rfl
    · rfl
    · unfold LocalProxy.ended at hproxy
      split at hproxy <;> simp_all
  | done => simp [RemoteProxy.ended, hp] at h
  | crashed e => simp [RemoteProxy.ended, hp] at h

theorem remoteStep_running {a : RemoteAction} (h : c.remoteStep a = some c') :
    c.remote.ended = false := by
  cases remoteStep_moves h with
  | leaves hp | selects hp | relayIo hp | wakeupRead hp | dispatched hp | breaks hp | takes hp
  | batch hp | joined hp => simp [RemoteProxy.ended, hp]

end Client

namespace RemoteRun
variable {s s' : RemoteRun} {e : Event}

/-- The threads of the client. -/
inductive Thread
  | remote
  | proxy

/-- The steps of a thread. -/
def Thread.Own : Thread → Event → Prop
  | .remote, .thread _ => True
  | .proxy, .proxy _ => True
  | _, _ => False

/-- Both threads have returned, or an exception has ended them. -/
def Over (s : RemoteRun) : Prop :=
  s.client.remote.ended = true ∧ s.client.proxy.ended = true

/-- Who has to take a step: the local proxy thread, and then the one that joins it. -/
def helper (s : RemoteRun) : Thread := if s.client.proxy.ended then .remote else .proxy

/-- What both threads have to do. -/
def togo (s : RemoteRun) : (ℕ ×ₗ ℕ) ×ₗ ℕ := toLex (s.client.proxy.togo, s.client.remote.togo)

theorem helper_enabled (h : ¬ Over s) :
    Transition.Enabled (Transition.Fires step) s.helper.Own s := by
  cases hproxy : s.client.proxy.ended with
  | true =>
    have hremote : s.client.remote.ended = false := Bool.eq_false_iff.mpr fun hr => h ⟨hr, hproxy⟩
    obtain ⟨a, ha⟩ := Client.exists_remoteStep hremote hproxy
    obtain ⟨client, hclient⟩ := Option.isSome_iff_exists.mp ha
    refine ⟨.thread a, { s with client }, ?_, Option.map_eq_some_iff.mpr ⟨client, hclient, rfl⟩⟩
    simp only [helper, hproxy, if_true, Thread.Own]
  | false =>
    obtain ⟨a, ha⟩ := LocalProxy.exists_step hproxy s.client.close
    obtain ⟨⟨l, puts⟩, hl⟩ := Option.isSome_iff_exists.mp ha
    have hstep : s.client.proxyStep a = some (s.client.proxyMoved l puts, puts) := by
      simp only [Client.proxyStep, hl, Option.map_some]
    refine ⟨.proxy a, _, ?_, Option.map_eq_some_iff.mpr ⟨_, hstep, rfl⟩⟩
    simp only [helper, hproxy, Bool.false_eq_true, if_false, Thread.Own]

/-- Every step of a thread brings both nearer to their end, and no other event takes them away. -/
theorem step_togo (hc : s.client.close = true) (hs : step s e = some s') :
    s'.client.close = true ∧ (s'.togo < s.togo ∨ (∀ p : Thread, ¬ p.Own e) ∧
      s'.togo = s.togo ∧ s'.helper = s.helper) := by
  cases e with
  | thread a =>
    obtain ⟨client, hclient, rfl⟩ := Option.map_eq_some_iff.mp hs
    refine ⟨Client.remoteStep_close hc hclient, .inl (Prod.Lex.toLex_lt_toLex.mpr (.inr ⟨?_, ?_⟩))⟩
    · obtain ⟨_, _, hl⟩ := Client.remoteStep_proxy hclient
      exact (congrArg LocalProxy.togo hl).trans rfl
    · exact Client.remoteStep_togo hc hclient
  | proxy a =>
    obtain ⟨⟨client, puts⟩, hclient, rfl⟩ := Option.map_eq_some_iff.mp hs
    obtain ⟨l, hl, rfl⟩ := Client.proxyStep_cases hclient
    rw [hc] at hl
    exact ⟨hc, .inl (Prod.Lex.toLex_lt_toLex.mpr (.inl (LocalProxy.step_togo hl)))⟩
  | wakeup =>
    simp only [step, Option.ite_none_right_eq_some, Option.some.injEq] at hs
    obtain ⟨-, rfl⟩ := hs
    exact ⟨hc, .inr ⟨fun p => by cases p <;> exact id, rfl, rfl⟩⟩
  | shutdown =>
    cases hs
    exact ⟨rfl, .inr ⟨fun p => by cases p <;> exact id, rfl, rfl⟩⟩

/-- Threads that are to close end. -/
theorem client_progress : Transition.Progress (Transition.Fires step) Thread.Own
    (fun s => s.client.close = true) Over togo helper where
  enabled _ _ hg := helper_enabled hg
  helps s e s' hK _ hs he := by
    obtain ⟨hc, hlt | ⟨hnot, -⟩⟩ := step_togo hK hs
    · exact .inr ⟨hc, hlt⟩
    · exact absurd he (hnot _)
  waits s e s' hK _ hs _ := by
    obtain ⟨hc, hlt | ⟨-, hsame⟩⟩ := step_togo hK hs
    · exact .inr ⟨hc, .inl hlt⟩
    · exact .inr ⟨hc, .inr hsame⟩

/-- **Both threads of the client end**, by their return or by an exception, in every fair run behind
its close event, whatever stands in the queues and buffers and whatever the sockets answer. -/
theorem client_ends {ρ : Transition.Run (Transition.Fires step)}
    (hfair : ∀ p : Thread, ρ.Fair p.Own) {i : ℕ} (hclose : (ρ.state i).client.close = true) :
    ∃ j ≥ i, Over (ρ.state j) :=
  client_progress.leadsTo hfair hclose

/-- Both threads have ended, and the close event is set. -/
def rests (s : RemoteRun) : Bool :=
  s.client.close && s.client.remote.ended && s.client.proxy.ended

/-- A run that comes to rest where both threads have ended is fair. -/
theorem exists_fair_run {es : List Event}
    (h : (Transition.exec step (fun _ _ => true) s es).any rests = true) :
    ∃ ρ : Transition.Run (Transition.Fires step), ρ.state 0 = s ∧ ∀ p : Thread, ρ.Fair p.Own := by
  obtain ⟨t, hx, hrests⟩ := (Option.any_eq_true ..).mp h
  simp only [rests, Bool.and_eq_true] at hrests
  obtain ⟨⟨hclose, hremote⟩, hproxy⟩ := hrests
  have hidle : step t .shutdown = some t := by
    simp only [step, ← hclose]
  have hsteps : Transition.Steps (Transition.Fires step) (fun _ _ => True) s t :=
    .exec (fun _ _ _ => trivial) hx
  obtain ⟨ρ, hρ, n, hrest⟩ := Transition.Run.exists_of_steps hsteps hidle
  refine ⟨ρ, hρ, fun p => Transition.Run.fair_of_rest hrest ?_⟩
  rintro ⟨e, u, hown, hu⟩
  cases p with
  | remote =>
    cases e with
    | thread a =>
      obtain ⟨client, hclient, -⟩ := Option.map_eq_some_iff.mp hu
      cases (Client.remoteStep_running hclient).symm.trans hremote
    | _ => cases hown
  | proxy =>
    cases e with
    | proxy a =>
      obtain ⟨⟨client, puts⟩, hclient, -⟩ := Option.map_eq_some_iff.mp hu
      obtain ⟨l, hl, -⟩ := Client.proxyStep_cases hclient
      cases (LocalProxy.step_ended hproxy _ _).symm.trans hl
    | _ => cases hown

/-- The server closes its end while a connection is open and both threads are in their pass. -/
theorem client_ends_eof : ∃ ρ : Transition.Run (Transition.Fires step),
    (ρ.state 0).client.close = true ∧ (ρ.state 0).client.proxy.connections.size = 1 ∧
    ∃ j ≥ 0, Over (ρ.state j) := by
  have hrun : (run (fun _ _ => true) [.thread (.select [(.client, .r)]),
      .thread (.relayIo ⟨.error .blockingIo,
        .ok [64, 3, 1, 4, 10, 0, 0, 1, 19, 136, 15, 160]⟩), .thread .turn, .thread .turn,
      .thread .turn, .thread .turn, .proxy .turn,
      .proxy (.item 0 { socket := .ok 5, connect := .ok () }), .thread (.select [(.client, .r)]),
      .thread (.relayIo ⟨.error .blockingIo, .ok []⟩)]).any
      (fun s => s.client.close = true ∧ s.client.proxy.connections.size = 1 ∧
        (Transition.exec step (fun _ _ => true) s [.thread .turn, .thread .turn, .thread .turn,
          .thread .turn, .proxy .turn, .proxy (.select []), .proxy .turn, .proxy .turn,
          .proxy .turn, .proxy .turn, .thread .turn]).any rests = true) = true := by
    decide +kernel
  obtain ⟨s, -, hseen⟩ := (Option.any_eq_true ..).mp hrun
  obtain ⟨hclose, hone, hrests⟩ := of_decide_eq_true hseen
  obtain ⟨ρ, rfl, hfair⟩ := exists_fair_run hrests
  exact ⟨ρ, hclose, hone, client_ends hfair hclose⟩

end RemoteRun
end PortPort
