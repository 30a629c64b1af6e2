import PortPort.Lib.Transition
import PortPort.Server.Newcomer

/-! # The accept loop (`start_relay_mgmt_server` in `server/manager.py`)

One thread accepts and authenticates every newcomer, and an exception that escapes
`add_to_conn_table` ends it. -/

namespace PortPort
open PortPortMessage

/-- Where the thread stands in the loop of `start_relay_mgmt_server`. -/
inductive AcceptPhase
  | top
  /-- with these events of the listening socket still to be handled -/
  | dispatch (events : List Mask)
  /-- behind the loop, joining the threads of the connections -/
  | closing
  | returned
  | crashed (e : PyError)
  deriving DecidableEq

/-- A call of `add_to_conn_table`: the variables before it, the results of its socket calls, and
what it left behind. -/
structure AddCall where
  before : MgmtServer
  io : NewcomerIO
  after : Newcomer

structure AcceptLoop where
  phase : AcceptPhase := .top
  server : MgmtServer
  serviceClose : Bool := false
  /-- the calls of `add_to_conn_table` since the start -/
  calls : List AddCall := []

namespace AcceptLoop

inductive Event
  | select (events : List Mask)
  | newcomer (io : NewcomerIO)
  | turn
  /-- another thread sets `service_close` -/
  | shutdown

/-- The listening socket is the only one registered, for read events. -/
def selectable (events : List Mask) : Bool := events = [] || events = [.r]

def step (s : AcceptLoop) (e : Event) : Option AcceptLoop :=
  match s.phase, e with
  | _, .shutdown => some { s with serviceClose := true }
  | .top, .select events =>
    if !s.serviceClose && selectable events then some { s with phase := .dispatch events } else none
  | .top, .turn => if s.serviceClose then some { s with phase := .closing } else none
  | .dispatch (mask :: events), .newcomer io =>
    let after := s.server.addToConnTable mask io
    some { s with
      phase := match after.raised with
        | none => .dispatch events
        | some e => .crashed e
      server := after.state
      calls := s.calls ++ [{ before := s.server, io, after }] }
  | .dispatch [], .turn => some { s with phase := .top }
  -- the threads that do not end within a second are left behind
  | .closing, .turn => some { s with phase := .returned }
  | _, _ => none

def Init (s : AcceptLoop) : Prop :=
  ∃ authToken authBypass, s = { server := { authToken, authBypass } }

abbrev Reachable : AcceptLoop → Prop :=
  Transition.Reach (Transition.Fires step) (fun _ _ => True) Init

/-- The loop goes on: the thread is in it and can take its next step, or has left it with
`service_close` set. -/
def GoesOn (s : AcceptLoop) : Prop :=
  ((s.phase = .top ∨ ∃ events, s.phase = .dispatch events) ∧
    ∃ e s', e ≠ .shutdown ∧ step s e = some s') ∨
  s.serviceClose = true ∧ (s.phase = .closing ∨ s.phase = .returned)

end AcceptLoop

/-! ## One newcomer -/

/-- `isinstance(e, ssl.SSLError)`. -/
def OSError.isSSLError : OSError → Bool
  | .ssl | .sslWantRead | .sslWantWrite => true
  | _ => false

/-- `accept` returns, and `wrap_socket` returns or raises an `SSLError`. -/
def NewcomerIO.Contained (io : NewcomerIO) : Prop :=
  (∃ addr, io.accept = .ok addr) ∧ ∀ e, io.wrap = .error e → e.isSSLError = true

namespace MgmtServer
variable {s : MgmtServer} {io : NewcomerIO}

/-- The newcomer has connected and shown the token of the server, and has been told so; a server
that bypasses authentication asks for no token. -/
def Authenticated (s : MgmtServer) (io : NewcomerIO) : Prop :=
  (∃ addr, io.accept = .ok addr) ∧ io.wrap = .ok () ∧
    (s.authBypass = true ∨ ∃ data m rest, io.recv = .ok data ∧ deserialize data = .ok (m, rest) ∧
      m.msgType = .auth ∧ m.auth = s.authToken ∧ io.sendall = .ok ())

theorem authenticate_ok_iff : (s.authenticate io).2 = .ok () ↔ ∃ data m rest, io.recv = .ok data ∧
    deserialize data = .ok (m, rest) ∧ m.msgType = .auth ∧ m.auth = s.authToken ∧
      io.sendall = .ok () := by
  unfold authenticate
  cases hrecv : io.recv with
  | error e => simp
  | ok data =>
    cases hdec : deserialize data with
    | error e => simp [hdec]
    | ok x =>
      obtain ⟨m, rest⟩ := x
      by_cases ht : m.msgType = .auth
      · by_cases ha : m.auth = s.authToken
        · cases hsend : io.sendall <;> simp [hdec, ht, ha]
        · cases hsend : io.sendall <;> simp [hdec, ht, ha]
      · simp [hdec, ht]

/-- The call returns, and it has closed the socket of a newcomer that is not authenticated and left
the table as it was. -/
def Survives (s : MgmtServer) (io : NewcomerIO) (after : Newcomer) : Prop :=
  after.raised = none ∧ (¬ s.Authenticated io →
    after.closed = true ∧ after.state.connectionTable = s.connectionTable)

/-- Behind a TLS handshake that succeeds, every exception is caught. -/
theorem survives_of_wrap {addr : Peer} (ha : io.accept = .ok addr) (hw : io.wrap = .ok ()) :
    s.Survives io (s.addToConnTable .r io) := by
  cases hb : s.authBypass with
  | true =>
    have hcall : s.addToConnTable .r io = s.spinOff addr [] := by
      simp [addToConnTable, Mask.r, ha, hw, hb]
    rw [hcall]
    exact ⟨rfl, fun hauth => absurd ⟨⟨addr, ha⟩, hw, .inl hb⟩ hauth⟩
  | false =>
    cases hauth : s.authenticate io with
    | mk sent result =>
      cases result with
      | error e =>
        have hcall : s.addToConnTable .r io = { state := s, sent, closed := true } := by
          simp [addToConnTable, Mask.r, ha, hw, hb, hauth]
        rw [hcall]
        exact ⟨rfl, fun _ => ⟨rfl, rfl⟩⟩
      | ok _ =>
        have hcall : s.addToConnTable .r io = s.spinOff addr sent := by
          simp [addToConnTable, Mask.r, ha, hw, hb, hauth]
        have hok := authenticate_ok_iff.mp (congrArg Prod.snd hauth)
        rw [hcall]
        exact ⟨rfl, fun hnot => absurd ⟨⟨addr, ha⟩, hw, .inr hok⟩ hnot⟩

theorem addToConnTable_survives_iff :
    s.Survives io (s.addToConnTable .r io) ↔ io.Contained := by
  cases ha : io.accept with
  | error e =>
    refine iff_of_false (fun h => ?_) fun h => ?_
    · have hraised := h.1
      simp [addToConnTable, Mask.r, ha] at hraised
    · obtain ⟨addr, ha'⟩ := h.1
      cases ha.symm.trans ha'
  | ok addr =>
    cases hw : io.wrap with
    | ok _ =>
      exact iff_of_true (survives_of_wrap ha hw)
        ⟨⟨addr, ha⟩, fun e he => by cases hw.symm.trans he⟩
    | error e =>
      have hcontained : io.Contained ↔ e.isSSLError = true := by
        refine ⟨fun h => h.2 e hw, fun he => ⟨⟨addr, ha⟩, fun e' he' => ?_⟩⟩
        cases hw.symm.trans he'
        exact he
      rw [hcontained]
      unfold Survives
      cases e <;> simp [addToConnTable, Mask.r, ha, hw, OSError.isSSLError]

end MgmtServer

/-! ## Every sequence of newcomers -/

namespace AcceptLoop
open MgmtServer
variable {s s' : AcceptLoop}

/-- The events that are left are read events; each call was made on one, and none has raised unless
the thread has ended with it. -/
structure Sound (s : AcceptLoop) : Prop where
  events : ∀ events, s.phase = .dispatch events → ∀ mask ∈ events, mask = .r
  calls : ∀ c ∈ s.calls, c.after = c.before.addToConnTable .r c.io
  crashed : (∃ e, s.phase = .crashed e) ↔ ∃ c ∈ s.calls, c.after.raised ≠ none
  closing : s.phase = .closing ∨ s.phase = .returned → s.serviceClose = true

theorem Sound.goto {phase : AcceptPhase} (h : s.Sound) (hn : ∀ e, s.phase ≠ .crashed e)
    (he : ∀ events, phase = .dispatch events → ∀ mask ∈ events, mask = .r)
    (hp : ∀ e, phase ≠ .crashed e)
    (hc : phase = .closing ∨ phase = .returned → s.serviceClose = true) :
    Sound { s with phase } where
  events := he
  calls := h.calls
  crashed := by
    refine iff_of_false (fun ⟨e, he⟩ => hp e he) fun hraised => ?_
    obtain ⟨e, he⟩ := h.crashed.mpr hraised
    exact hn e he
  closing := hc

theorem Sound.newcomer {mask : Mask} {events : List Mask} (h : s.Sound)
    (hph : s.phase = .dispatch (mask :: events)) (io : NewcomerIO) :
    let after := s.server.addToConnTable mask io
    Sound { s with
      phase := match after.raised with
        | none => .dispatch events
        | some e => .crashed e
      server := after.state
      calls := s.calls ++ [{ before := s.server, io, after }] } := by
  intro after
  have hmasks := h.events _ hph
  have hmask : mask = .r := hmasks mask (List.mem_cons_self ..)
  have hold : ¬ ∃ c ∈ s.calls, c.after.raised ≠ none := by
    rw [← h.crashed, hph]
    rintro ⟨e, he⟩
    cases he
  refine ⟨?_, ?_, ?_, ?_⟩
  · intro rest hrest
    simp only at hrest
    split at hrest <;> cases hrest
    exact fun m hm => hmasks m (List.mem_cons_of_mem _ hm)
  · intro c hc
    rcases List.mem_append.mp hc with hc | hc
    · exact h.calls c hc
    · rw [List.mem_singleton.mp hc, ← hmask]
  · constructor
    · rintro ⟨e, he⟩
      simp only at he
      split at he
      · cases he
      · rename_i hraised
        exact ⟨_, List.mem_append_right _ (List.mem_singleton_self _), by simp [hraised]⟩
    · rintro ⟨c, hc, hraised⟩
      rcases List.mem_append.mp hc with hc | hc
      · exact absurd ⟨c, hc, hraised⟩ hold
      · rw [List.mem_singleton.mp hc] at hraised
        obtain ⟨e, he⟩ := Option.ne_none_iff_exists'.mp hraised
        have he : after.raised = some e := he
        exact ⟨e, by simp only [he]⟩
  · rintro (hc | hc)
    · simp only at hc
      split at hc <;> cases hc
    · simp only at hc
      split at hc <;> cases hc

theorem step_sound {e : Event} (h : s.Sound) (hs : step s e = some s') : s'.Sound := by
  unfold step at hs
  split at hs
  · cases hs
    exact { h with closing := fun _ => rfl }
  · rename_i events hph
    split at hs <;> cases hs
    rename_i hg
    simp only [selectable, Bool.and_eq_true, Bool.or_eq_true, decide_eq_true_eq] at hg
    refine h.goto (by rw [hph]; nofun) ?_ nofun (by rintro (hc | hc) <;> cases hc)
    rintro _ ⟨⟩ mask hmask
    rcases hg.2 with rfl | rfl
    · cases hmask
    · exact List.mem_singleton.mp hmask
  · rename_i hph
    split at hs <;> cases hs
    rename_i hclose
    exact h.goto (by rw [hph]; nofun) nofun nofun fun _ => hclose
  · rename_i mask events io hph
    cases hs
    exact h.newcomer hph io
  · rename_i hph
    cases hs
    exact h.goto (by rw [hph]; nofun) nofun nofun (by rintro (hc | hc) <;> cases hc)
  · rename_i hph
    cases hs
    exact h.goto (by rw [hph]; nofun) nofun nofun fun _ => h.closing (.inl hph)
  · cases hs

theorem Reachable.sound (h : Reachable s) : s.Sound := by
  apply h.invariant (J := Sound)
  · rintro _ ⟨authToken, authBypass, rfl⟩
    refine ⟨fun events h => ?_, fun c hc => ?_, ?_, ?_⟩
    · cases h
    · cases hc
    · refine iff_of_false (fun ⟨e, he⟩ => ?_) fun ⟨c, hc, _⟩ => ?_
      · cases he
      · cases hc
    · rintro (hc | hc) <;> cases hc
  · exact fun _ _ _ hI _ hs => step_sound hI hs

/-- The loop goes on unless a call has raised. -/
theorem Reachable.goesOn_iff (h : Reachable s) :
    s.GoesOn ↔ ∀ c ∈ s.calls, c.after.raised = none := by
  have hS := h.sound
  have hraised : (∀ c ∈ s.calls, c.after.raised = none) ↔ ∀ e, s.phase ≠ .crashed e := by
    constructor
    · rintro hall e he
      obtain ⟨c, hc, hr⟩ := hS.crashed.mp ⟨e, he⟩
      exact hr (hall c hc)
    · intro hall c hc
      by_contra hr
      obtain ⟨e, he⟩ := hS.crashed.mpr ⟨c, hc, hr⟩
      exact hall e he
  rw [hraised]
  cases hph : s.phase with
  | crashed e =>
    refine iff_of_false ?_ fun hall => hall e rfl
    rintro (⟨hin | ⟨events, hin⟩, -⟩ | ⟨-, hout | hout⟩)
    · cases hph.symm.trans hin
    · cases hph.symm.trans hin
    · cases hph.symm.trans hout
    · cases hph.symm.trans hout
  | closing => exact iff_of_true (.inr ⟨hS.closing (.inl hph), .inl hph⟩) nofun
  | returned => exact iff_of_true (.inr ⟨hS.closing (.inr hph), .inr hph⟩) nofun
  | top =>
    refine iff_of_true (.inl ⟨.inl hph, ?_⟩) nofun
    cases hc : s.serviceClose with
    | true => exact ⟨.turn, { s with phase := .closing }, nofun, by simp [step, hph, hc]⟩
    | false =>
      exact ⟨.select [], { s with phase := .dispatch [] }, nofun,
        by simp [step, hph, hc, selectable]⟩
  | dispatch events =>
    refine iff_of_true (.inl ⟨.inr ⟨events, hph⟩, ?_⟩) nofun
    cases events with
    | nil => exact ⟨.turn, { s with phase := .top }, nofun, by simp [step, hph]⟩
    | cons mask events =>
      exact ⟨.newcomer ⟨.error .blockingIo, .error .ssl, .error .ssl, .error .ssl⟩, _, nofun,
        by simp only [step, hph]; rfl⟩

/-- **Bad newcomers and the accept loop**: in every run, every call of `add_to_conn_table` has
returned, has closed the socket of a newcomer that is not authenticated and left the table as it
was, and the loop goes on until `service_close` is set, exactly if each `accept` has returned and
no `wrap_socket` has raised another exception than an `SSLError`. -/
theorem newcomers_survived_iff (h : Reachable s) :
    ((∀ c ∈ s.calls, c.before.Survives c.io c.after) ∧ s.GoesOn) ↔
      ∀ c ∈ s.calls, c.io.Contained := by
  have hiff (c : AddCall) (hc : c ∈ s.calls) :
      c.before.Survives c.io c.after ↔ c.io.Contained := by
    rw [h.sound.calls c hc]
    exact addToConnTable_survives_iff
  rw [h.goesOn_iff]
  constructor
  · exact fun hall c hc => (hiff c hc).mp (hall.1 c hc)
  · intro hall
    have hsurvives (c : AddCall) (hc : c ∈ s.calls) := (hiff c hc).mpr (hall c hc)
    exact ⟨hsurvives, fun c hc => (hsurvives c hc).1⟩

/-- A newcomer whose connection ends this way in `wrap_socket`. -/
def refusedBy (e : OSError) : NewcomerIO where
  accept := .ok (.dotted 10 0 0 1, 5000)
  wrap := .error e
  recv := .error .timeout
  sendall := .error .timeout

/-- The server calls `add_to_conn_table` on this newcomer. -/
theorem exists_call (io : NewcomerIO) : ∃ s, Reachable s ∧ ∃ before after,
    s.calls = [{ before, io, after }] ∧ after = before.addToConnTable .r io := by
  have h0 : Reachable { server := { authToken := "secret" } } := .init ⟨"secret", false, rfl⟩
  have h1 := h0.step (a := .select [.r]) trivial rfl
  exact ⟨_, h1.step (a := .newcomer io) trivial rfl, _, _, rfl, rfl⟩

/-- A newcomer that does not speak TLS. -/
theorem newcomers_survived_ssl : ∃ s, Reachable s ∧ s.calls ≠ [] ∧
    (((∀ c ∈ s.calls, c.before.Survives c.io c.after) ∧ s.GoesOn) ↔
      ∀ c ∈ s.calls, c.io.Contained) := by
  obtain ⟨s, hs, before, after, hcalls, -⟩ := exists_call (refusedBy .ssl)
  exact ⟨s, hs, by rw [hcalls]; nofun, newcomers_survived_iff hs⟩

/-- A newcomer that resets its connection during the TLS handshake ends the thread. -/
theorem reset_ends_server : ¬ ∀ s, Reachable s →
    (∀ c ∈ s.calls, c.before.Survives c.io c.after) ∧ s.GoesOn := by
  intro h
  obtain ⟨s, hs, before, after, hcalls, hafter⟩ := exists_call (refusedBy .connectionReset)
  have hsurvives := (h s hs).1 _ (hcalls ▸ List.mem_singleton_self _)
  have hraised : after.raised = none := hsurvives.1
  rw [hafter] at hraised
  cases hraised

end AcceptLoop
end PortPort
