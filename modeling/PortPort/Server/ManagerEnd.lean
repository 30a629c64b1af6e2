import PortPort.Server.RecvLoop

/-! # How the management thread ends

Behind its loop the thread closes and wakes up every relay and closes its own sockets. An exception
that escapes `handle_relay_client` ends it before it comes there. -/

namespace PortPort
open Relay (BindResult)
open Server (ManagerAction)

/-- The `except` clauses of `handle_relay_client` name the exception. -/
def OSError.caught : OSError → Bool
  | .connectionReset | .brokenPipe | .blockingIo | .sslWantRead | .sslWantWrite => true
  | _ => false

/-- The exceptions that the calls of `send` and `recv` raise are caught. -/
def ClientIO.Caught (io : ClientIO) (m : Manager) (mask : Mask) : Prop :=
  (mask.write = true → m.sendq ≠ [] → ∀ e, io.send = .error e → e.caught = true) ∧
    (mask.read = true → ∀ e, io.recv = .error e → e.caught = true)

namespace Manager
variable {m m' : Manager}

/-- The end of the connection is not touched. -/
structure SameEnd (m m' : Manager) : Prop where
  socketClosed : m'.socketClosed = m.socketClosed
  mgmtConnections : m'.mgmtConnections = m.mgmtConnections

theorem SameEnd.refl (m : Manager) : SameEnd m m := ⟨rfl, rfl⟩

theorem SameEnd.trans {m'' : Manager} (h : SameEnd m m') (h' : SameEnd m' m'') : SameEnd m m'' :=
  ⟨h'.socketClosed.trans h.socketClosed, h'.mgmtConnections.trans h.mgmtConnections⟩

theorem handleWrite_sameEnd (m : Manager) (send : Except OSError Nat) :
    SameEnd m (m.handleWrite send).state := by
  have hsend (out : Outcome Manager) (h : SameEnd m out.state) :
      SameEnd m (if out.raised = none ∧ out.state.sendq = [] then
        { state := { out.state with writeEnabled := false, mask := .r } }
        else out : Outcome Manager).state := by
    split
    · exact ⟨h.socketClosed, h.mgmtConnections⟩
    · exact h
  apply hsend
  split <;> exact ⟨rfl, rfl⟩

theorem handleRead_sameEnd (m : Manager) (recv : Except OSError Bytes) :
    SameEnd m (m.handleRead recv).state := by
  unfold handleRead
  split <;> exact ⟨rfl, rfl⟩

theorem handleRelayClient_sameEnd (m : Manager) (mask : Mask) (io : ClientIO) :
    SameEnd m (m.handleRelayClient mask io).state := by
  have hread (out : Outcome Manager) (h : SameEnd m out.state) :
      SameEnd m (if out.raised = none ∧ mask.read then out.state.handleRead io.recv
        else out : Outcome Manager).state := by
    split
    · exact h.trans (handleRead_sameEnd ..)
    · exact h
  apply hread
  split
  · exact handleWrite_sameEnd ..
  · exact .refl m

theorem Drains.sameEnd {left : Nat} (hd : m.Drains left m') : SameEnd m m' := by
  cases hd with
  | sends hl hi hm =>
    obtain ⟨data, writeEnabled, mask, -, rfl⟩ := send_sent hm
    exact ⟨rfl, rfl⟩
  | _ => exact ⟨rfl, rfl⟩

theorem handleWrite_raised_iff (m : Manager) (send : Except OSError Nat) :
    (m.handleWrite send).raised = none ↔ ∀ e, send = .error e → e.caught = true := by
  have hsent (out : Outcome Manager) :
      (if out.raised = none ∧ out.state.sendq = [] then
        { state := { out.state with writeEnabled := false, mask := .r } }
        else out : Outcome Manager).raised = out.raised := by
    split
    · rename_i hsent
      exact hsent.1.symm
    · rfl
  refine (iff_of_eq (congrArg (· = none) (hsent _))).trans ?_
  cases send with
  | ok len => simp
  | error e => cases e <;> simp [OSError.caught]

theorem handleRead_raised_iff (m : Manager) (recv : Except OSError Bytes) :
    (m.handleRead recv).raised = none ↔ ∀ e, recv = .error e → e.caught = true := by
  cases recv with
  | ok data => simp [handleRead]
  | error e => cases e <;> simp [handleRead, OSError.caught]

theorem handleRelayClient_raised_iff (mask : Mask) (io : ClientIO) :
    (m.handleRelayClient mask io).raised = none ↔ io.Caught m mask := by
  have hread (out : Outcome Manager) :
      (if out.raised = none ∧ mask.read then out.state.handleRead io.recv
        else out : Outcome Manager).raised = none ↔
      out.raised = none ∧ (mask.read = true → ∀ e, io.recv = .error e → e.caught = true) := by
    rw [← handleRead_raised_iff out.state]
    by_cases hr : out.raised = none
    · by_cases hm : mask.read = true
      · simp [hr, hm]
      · simp [hr, hm]
    · simp [hr]
  refine (hread _).trans (and_congr_left fun _ => ?_)
  by_cases hw : mask.write = true ∧ m.sendq ≠ []
  · rw [if_pos (by simp [hw]), handleWrite_raised_iff]
    exact ⟨fun h _ _ => h, fun h => h hw.1 hw.2⟩
  · rw [if_neg (by simpa using hw)]
    exact iff_of_true rfl fun hwrite hq => absurd ⟨hwrite, hq⟩ hw

end Manager

/-- In the loop of `relayMgmt`. -/
def ManagerPhase.inLoop : ManagerPhase → Bool
  | .closing _ | .closed | .crashed _ => false
  | _ => true

theorem Manager.Drains.inLoop {m m' : Manager} {left : Nat} (hd : m.Drains left m') :
    m'.phase.inLoop = true := by
  cases hd <;> rfl

namespace Server

/-- The end of the connection is not touched, and the thread goes on in its loop. -/
structure StaysIn (s s' : Server) : Prop where
  same : Manager.SameEnd s.mgr s'.mgr
  phase : s'.mgr.phase.inLoop = true

/-- The relays that are still registered, in the order in which they are closed. -/
def registered (s : Server) : List Nat := s.mgr.relays.entries.reverse.map (·.2)

/-- What a step of the thread in its loop does: the thread goes on, or leaves the loop to close its
relays, or ends with an exception that `handle_relay_client` does not catch. -/
inductive LoopStep (s : Server) : ManagerAction → Server → Prop
  | stays (h : StaysIn s s') : LoopStep s a s'
  | leaves : LoopStep s a (s.goto (.closing s.registered))
  | raises (hp : s.mgr.phase = .dispatch ((.client, mask) :: events))
      (hc : ¬ io.Caught s.mgr mask) : LoopStep s (.clientIo io) s'

variable {s s' : Server}

theorem Replied.staysIn (h : Replied s s') : StaysIn s s' where
  same := ⟨h.socketClosed, h.mgmtConnections⟩
  phase := by
    rcases h.phase with hp | hp
    · rw [hp]
      rfl
    · rw [hp]
      rfl

/-- An exception that is not caught ends the thread where it is. -/
theorem mgrStep_raises {mask : Mask} {events : List (ManagerKey × Mask)} {io : ClientIO}
    (hp : s.mgr.phase = .dispatch ((.client, mask) :: events)) (hc : ¬ io.Caught s.mgr mask)
    (h : s.mgrStep (.clientIo io) = some s') : ∃ e, s'.mgr.phase = .crashed e := by
  simp only [mgrStep, hp, Option.ite_none_right_eq_some, Option.some.injEq] at h
  obtain ⟨-, rfl⟩ := h
  obtain ⟨e, he⟩ := Option.ne_none_iff_exists'.mp
    (mt (Manager.handleRelayClient_raised_iff mask io).mp hc)
  exact ⟨e, by simp only [withMgr_mgr, he]⟩

theorem mem_registered {port : Int} {rid : Nat} (h : s.mgr.relays.lookup port = some rid) :
    rid ∈ s.registered := by
  have hmem := AList.mem_lookup_iff.mp (Option.mem_def.mpr h)
  exact List.mem_map.mpr ⟨⟨port, rid⟩, List.mem_reverse.mpr hmem, rfl⟩

theorem mgrStep_inLoop {a : ManagerAction} (hp : s.mgr.phase.inLoop = true)
    (h : s.mgrStep a = some s') : LoopStep s a s' := by
  cases mgrStep_moves h with
  | leaves => exact .leaves
  | @clientIo mask events io hph =>
    have hend := s.mgr.handleRelayClient_sameEnd mask io
    by_cases hcaught : io.Caught s.mgr mask
    · have hraised := (Manager.handleRelayClient_raised_iff mask io).mpr hcaught
      refine .stays ⟨⟨hend.socketClosed, hend.mgmtConnections⟩, ?_⟩
      simp only [withMgr_mgr, hraised]
      rfl
    · exact .raises hph hcaught
  | takes _ _ _ hmsg =>
    cases hmsg with
    | replies hr =>
      have hstays := hr.replied.staysIn
      exact .stays ⟨⟨hstays.same.socketClosed, hstays.same.mgmtConnections⟩, hstays.phase⟩
    | _ => exact .stays ⟨⟨rfl, rfl⟩, rfl⟩
  | refuses _ _ hr => exact .stays hr.replied.staysIn
  | announces _ hr => exact .stays hr.replied.staysIn
  | destroys _ _ hr =>
    have hstays := hr.replied.staysIn
    exact .stays ⟨⟨hstays.same.socketClosed, hstays.same.mgmtConnections⟩, hstays.phase⟩
  | drains =>
    have hdrains := s.mgr.inboundTurn_drains
    exact .stays ⟨(hdrains _).sameEnd, (hdrains _).inLoop⟩
  | closes hph | ends hph =>
    rw [hph] at hp
    cases hp
  | _ => exact .stays ⟨⟨rfl, rfl⟩, rfl⟩

end Server

/-! ## Runs to the end -/

namespace ManagerRun
variable {s s' : ManagerRun} {e : Event}

/-- The calls of `send` and `recv` in `handle_relay_client` raise only what it catches. -/
def Caught (s : ManagerRun) (e : Event) : Prop :=
  ∀ mask events io, s.server.mgr.phase = .dispatch ((.client, mask) :: events) →
    e = .thread (.clientIo io) → io.Caught s.server.mgr mask

/-- The thread has ended. -/
def Ended (s : ManagerRun) : Prop :=
  s.server.mgr.phase = .closed ∨ ∃ e, s.server.mgr.phase = .crashed e

/-- Every relay that is still registered has been closed and then woken up, but these. -/
def ClosedBut (s : ManagerRun) (rids : List Nat) : Prop :=
  ∀ port rid, s.server.mgr.relays.lookup port = some rid → rid ∈ rids ∨
    (s.server.relay rid).atomicClose = true ∧ (s.server.relay rid).woken = true

/-- Nothing is left behind: the relays have been closed and woken up, the selector and the socket
are closed, and the gauge has been decremented once since the start of the thread. -/
structure Clean (s : ManagerRun) : Prop where
  phase : s.server.mgr.phase = .closed
  relays : s.ClosedBut []
  selectorClosed : s.server.mgr.selectorClosed = true
  socketClosed : s.server.mgr.socketClosed = true
  mgmtConnections : s.server.mgr.mgmtConnections = 0

/-- What holds on the way there. -/
def Cleaning (s : ManagerRun) : Prop :=
  match s.server.mgr.phase with
  | .closed => s.Clean
  | .closing rids => s.server.mgr.mgmtConnections = 1 ∧ s.ClosedBut rids
  | .crashed _ => False
  | _ => s.server.mgr.mgmtConnections = 1

theorem Cleaning.of_inLoop (hp : s.server.mgr.phase.inLoop = true) :
    s.Cleaning ↔ s.server.mgr.mgmtConnections = 1 := by
  unfold Cleaning
  cases hph : s.server.mgr.phase <;> simp_all [ManagerPhase.inLoop]

theorem Cleaning.thread {a : ManagerAction} (h : s.Cleaning) (hc : Caught s (.thread a))
    (hs : step s (.thread a) = some s') : s'.Cleaning := by
  obtain ⟨server, hm, rfl⟩ := Option.map_eq_some_iff.mp hs
  cases hin : s.server.mgr.phase.inLoop with
  | true =>
    have hgauge := (Cleaning.of_inLoop hin).mp h
    cases Server.mgrStep_inLoop hin hm with
    | stays hstays =>
      exact (Cleaning.of_inLoop hstays.phase).mpr (hstays.same.mgmtConnections.trans hgauge)
    | leaves =>
      exact ⟨hgauge, fun port rid hrid => .inl (Server.mem_registered hrid)⟩
    | raises hp hnot => exact absurd (hc _ _ _ hp rfl) hnot
  | false =>
    unfold Cleaning at h
    cases hph : s.server.mgr.phase with
    | closing rids =>
      simp only [hph] at h
      obtain ⟨hgauge, hbut⟩ := h
      simp only [Server.mgrStep, hph] at hm
      cases rids with
      | nil =>
        cases a with
        | turn =>
          cases hm
          have hgone : s.server.mgr.mgmtConnections - 1 = 0 := by omega
          exact ⟨rfl, hbut, rfl, rfl, hgone⟩
        | _ => cases hm
      | cons rid rids =>
        cases a with
        | turn =>
          cases hm
          refine ⟨hgauge, fun port i hi => ?_⟩
          by_cases hir : i = rid
          · subst hir
            exact .inr (by simp [Server.goto, Relay.wakeup])
          · refine (hbut port i hi).imp (fun hmem => ?_) fun hclosed => ?_
            · exact (List.mem_cons.mp hmem).resolve_left hir
            · simpa [Server.goto, hir] using hclosed
        | _ => cases hm
    | closed =>
      simp only [Server.mgrStep, hph] at hm
      cases hm
    | crashed x =>
      simp only [hph] at h
    | _ => simp [hph, ManagerPhase.inLoop] at hin

theorem Cleaning.other (h : s.Cleaning) (he : ∀ a, e ≠ .thread a) (hs : step s e = some s') :
    s'.Cleaning := by
  obtain ⟨inboundData, wakeupPending, hm⟩ := step_others he hs
  have hbut {rids : List Nat} (hb : s.ClosedBut rids) : s'.ClosedBut rids := by
    intro port rid hrid
    rw [hm] at hrid
    refine (hb port rid hrid).imp_right fun hclosed => ?_
    rcases step_relay he hs rid with hr | ⟨a, hr⟩
    · rw [hr]
      exact hclosed
    · exact ⟨hr.atomicClose hclosed.1, hr.woken.trans hclosed.2⟩
  unfold Cleaning at h ⊢
  simp only [hm]
  cases hph : s.server.mgr.phase with
  | closing rids =>
    simp only [hph] at h ⊢
    exact ⟨h.1, hbut h.2⟩
  | closed =>
    simp only [hph] at h ⊢
    exact ⟨by rw [hm]; exact hph, hbut h.relays, by rw [hm]; exact h.selectorClosed,
      by rw [hm]; exact h.socketClosed, by rw [hm]; exact h.mgmtConnections⟩
  | crashed x => simp only [hph] at h
  | _ =>
    simp only [hph] at h ⊢
    exact h

theorem step_cleaning (h : s.Cleaning) (hc : Caught s e) (hs : step s e = some s') :
    s'.Cleaning := by
  cases e with
  | thread a => exact h.thread hc hs
  | relay rid a => exact h.other (by nofun) hs
  | wakeup => exact h.other (by nofun) hs
  | shutdown => exact h.other (by nofun) hs

theorem Reachable.cleaning (h : Reachable Caught s) : s.Cleaning := by
  apply h.invariant (J := Cleaning)
  · rintro _ ⟨portRange, rfl⟩
    exact (Cleaning.of_inLoop (s := start portRange) rfl).mpr rfl
  · exact fun _ _ _ hI hc hs => step_cleaning hI hc hs

theorem step_uncaught (hc : ¬ Caught s e) (hs : step s e = some s') :
    ∃ x, s'.server.mgr.phase = .crashed x := by
  unfold Caught at hc
  push Not at hc
  obtain ⟨mask, events, io, hp, rfl, hnot⟩ := hc
  obtain ⟨server, hm, rfl⟩ := Option.map_eq_some_iff.mp hs
  exact Server.mgrStep_raises hp hnot hm

theorem step_crashed {x : PyError} (hp : s.server.mgr.phase = .crashed x)
    (hs : step s e = some s') : s'.server.mgr.phase = .crashed x := by
  rcases step_mgr hs with ⟨a, ha⟩ | ⟨inboundData, wakeupPending, hm⟩
  · simp only [Server.mgrStep, hp] at ha
    cases ha
  · rw [hm]
    exact hp

theorem Reachable.caught_or (h : Reachable (fun _ _ => True) s) :
    Reachable Caught s ∨ ∃ x, s.server.mgr.phase = .crashed x := by
  induction h with
  | init hi => exact .inl (.init hi)
  | @step s e s' _ _ hs ih =>
    rcases ih with h | ⟨x, hx⟩
    · by_cases hc : Caught s e
      · exact .inl (h.step hc hs)
      · exact .inr (step_uncaught hc hs)
    · exact .inr ⟨x, step_crashed hx hs⟩

/-- **A management connection leaves nothing behind** exactly if `handle_relay_client` catches every
exception of its socket calls: when the thread has ended, every relay that is still registered has
been closed and woken up, the selector and the socket are closed and the gauge has been decremented
once, if and only if each step of the run raised what is caught. -/
theorem ended_clean_iff (h : Reachable (fun _ _ => True) s) (hend : s.Ended) :
    s.Clean ↔ Reachable Caught s := by
  constructor
  · intro hclean
    refine h.caught_or.resolve_right ?_
    rintro ⟨x, hx⟩
    cases hclean.phase.symm.trans hx
  · intro hcaught
    have hcleaning := hcaught.cleaning
    unfold Cleaning at hcleaning
    rcases hend with hp | ⟨x, hp⟩
    · simpa only [hp] using hcleaning
    · simp only [hp] at hcleaning

/-- The client has a relay made, and the thread comes back to its `select`. -/
def oneRelay : List Event :=
  [.thread (.select [(.client, .r)]), .thread (.clientIo ⟨.error .blockingIo, .ok [64, 1, 1]⟩),
    .thread .turn, .thread (.recvTurn [.bound 4000]), .thread .turn, .thread (.recvTurn []),
    .thread .turn]

/-- The service is shut down. -/
theorem ended_clean_shutdown : ∃ s, run (fun _ _ => true) (oneRelay ++ [.shutdown, .thread .turn,
    .thread .turn, .thread .turn]) = some s ∧ s.server.registered = [0] ∧
      (s.Clean ↔ Reachable Caught s) := by
  obtain ⟨s, hs, hp, hr⟩ : ∃ s, run (fun _ _ => true) (oneRelay ++ [.shutdown, .thread .turn,
      .thread .turn, .thread .turn]) = some s ∧ s.server.mgr.phase = .closed ∧
      s.server.registered = [0] := ⟨_, rfl, rfl, rfl⟩
  exact ⟨s, hs, hr, ended_clean_iff (.of_run (fun _ _ _ => trivial) hs) (.inl hp)⟩

/-- The client's host is gone, and `recv` times out. -/
theorem timeout_leaves_relay : ¬ ∀ s, Reachable (fun _ _ => True) s → s.Ended → s.Clean := by
  intro h
  obtain ⟨s, hs, hp⟩ : ∃ s, run (fun _ _ => true) (oneRelay ++ [.thread (.select [(.client, .r)]),
      .thread (.clientIo ⟨.error .blockingIo, .error .timeout⟩)]) = some s ∧
      s.server.mgr.phase = .crashed (.os .timeout) := ⟨_, rfl, rfl⟩
  have hclean := h s (.of_run (fun _ _ _ => trivial) hs) (.inr ⟨_, hp⟩)
  cases hclean.phase.symm.trans hp

end ManagerRun
end PortPort
