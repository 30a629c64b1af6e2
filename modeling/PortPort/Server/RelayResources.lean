import PortPort.Server.RelayRun

/-! # The resources of the relay

The table, the selector, the open sockets and the gauge are four views of the connections that the
relay has. -/

namespace PortPort
open Function (update update_of_ne)
open Relay (RelayAction)

namespace Relay

/-- The connection is the one that the table has under its address. -/
def Entered (r : Relay) (n : Nat) : Prop := r.connectionTable.lookup (r.conns n).peer = some n

/-- A connection that has been accepted is in the table, registered and open, or it is none of
these and has been closed once; the gauge counts those in the table. -/
structure Resources (r : Relay) : Prop where
  registered : n < r.nconns → ((r.selector n).isSome ↔ r.Entered n)
  opened : n < r.nconns → r.Entered n → (r.conns n).sck.closes = 0
  closed : n < r.nconns → ¬ r.Entered n → (r.conns n).sck.closes = 1
  gauge : r.activeConnections = r.connectionTable.size

section
variable {r r' : Relay} {a : RelayAction}

theorem Frame.entered (hf : Frame r r') (n : Nat) : r'.Entered n ↔ r.Entered n := by
  rw [Entered, Entered, hf.connectionTable, hf.peer]

theorem Resources.frame (h : r.Resources) (hf : Frame r r') : r'.Resources where
  registered := by
    intro n hn
    rw [hf.selector, hf.entered]
    exact h.registered (hf.nconns ▸ hn)
  opened := by
    intro n hn he
    rw [hf.closes]
    exact h.opened (hf.nconns ▸ hn) ((hf.entered n).mp he)
  closed := by
    intro n hn he
    rw [hf.closes]
    exact h.closed (hf.nconns ▸ hn) fun hr => he ((hf.entered n).mpr hr)
  gauge := by rw [hf.activeConnections, hf.connectionTable, h.gauge]

theorem entered_accept {addr : Peer} (hfresh : r.connectionTable.lookup addr = none) {n : Nat} :
    (n = r.nconns → (r.acceptInboundConnection addr).state.Entered n) ∧
      (n < r.nconns → ((r.acceptInboundConnection addr).state.Entered n ↔ r.Entered n)) := by
  constructor
  · rintro rfl
    have hself : (r.acceptInboundConnection addr).state.conns r.nconns = { peer := addr } :=
      Function.update_self ..
    rw [Entered, hself]
    exact (Dict.lookup_set ..).trans (if_pos rfl)
  · intro hn
    have hne : n ≠ r.nconns := Nat.ne_of_lt hn
    have hother : (r.acceptInboundConnection addr).state.conns n = r.conns n := update_of_ne hne ..
    rw [Entered, hother]
    simp only [acceptInboundConnection, Dict.lookup_set, Entered]
    split
    · rename_i he
      rw [he, hfresh]
      simp [Ne.symm hne]
    · rfl

theorem Resources.accept {addr : Peer} (h : r.Resources)
    (hfresh : r.connectionTable.lookup addr = none) :
    (r.acceptInboundConnection addr).state.Resources := by
  have hlt {n : Nat} (hn : n < (r.acceptInboundConnection addr).state.nconns) :
      n = r.nconns ∨ n < r.nconns := by
    have hn : n < r.nconns + 1 := hn
    omega
  have hconn {n : Nat} (hn : n < r.nconns) :
      (r.acceptInboundConnection addr).state.conns n = r.conns n :=
    Function.update_of_ne (Nat.ne_of_lt hn) ..
  constructor
  case registered =>
    intro n hn
    rcases hlt hn with rfl | hn
    · exact iff_of_true (by simp [acceptInboundConnection]) ((entered_accept hfresh).1 rfl)
    · rw [(entered_accept hfresh).2 hn, ← h.registered hn]
      simp [acceptInboundConnection, Nat.ne_of_lt hn]
  case opened =>
    intro n hn he
    rcases hlt hn with rfl | hn
    · simp [acceptInboundConnection]
    · rw [hconn hn]
      exact h.opened hn (((entered_accept hfresh).2 hn).mp he)
  case closed =>
    intro n hn he
    rcases hlt hn with rfl | hn
    · exact absurd ((entered_accept hfresh).1 rfl) he
    · rw [hconn hn]
      exact h.closed hn fun hr => he (((entered_accept hfresh).2 hn).mpr hr)
  case gauge =>
    simp only [acceptInboundConnection, Dict.size_set hfresh, h.gauge]
    omega

theorem entered_removed {addr : Peer} {n : Nat} (hpeer : (r.conns n).peer = addr)
    (hl : r.connectionTable.lookup addr = some n) (m : Nat) :
    (r.removed addr n).Entered m ↔ m ≠ n ∧ r.Entered m := by
  rw [Entered, removed_peer]
  simp only [removed, Dict.lookup_erase]
  constructor
  · intro hm
    split at hm
    · cases hm
    · rename_i hne
      refine ⟨?_, hm⟩
      rintro rfl
      exact hne hpeer
  · rintro ⟨hne, hm⟩
    rw [if_neg]
    · exact hm
    · intro he
      rw [Entered, he, hl] at hm
      exact hne (Option.some.inj hm).symm

theorem Resources.removed {addr : Peer} {n : Nat} (h : r.Resources) (hn : n < r.nconns)
    (hpeer : (r.conns n).peer = addr) (hl : r.connectionTable.lookup addr = some n) :
    (r.removed addr n).Resources := by
  have hentered : r.Entered n := by rw [Entered, hpeer, hl]
  constructor
  case registered =>
    intro m hm
    rw [entered_removed hpeer hl]
    by_cases hmn : m = n
    · simp [hmn, Relay.removed]
    · rw [← h.registered hm]
      simp [hmn, Relay.removed]
  case opened =>
    intro m hm he
    obtain ⟨hmn, he⟩ := (entered_removed hpeer hl m).mp he
    simpa [hmn, Relay.removed] using h.opened hm he
  case closed =>
    intro m hm he
    by_cases hmn : m = n
    · subst hmn
      simp [Relay.removed, Sock.close, h.opened hn hentered]
    · have he : ¬ r.Entered m := fun hr => he ((entered_removed hpeer hl m).mpr ⟨hmn, hr⟩)
      simpa [hmn, Relay.removed] using h.closed hm he
  case gauge =>
    have := Dict.size_erase hl
    simp only [Relay.removed, h.gauge]
    omega

theorem Change.resources (hI : r.Inv True) (h0 : r.Resources)
    (hfresh : ∀ addr, a = .accept (.ok addr) → r.connectionTable.lookup addr = none)
    (h : Change r a r') : r'.Resources := by
  induction h with
  | refl => exact h0
  | accept addr ha hport => exact h0.accept (hfresh addr ha)
  | goto phase sck outbound atomicClose wakeupPending hs h ih => exact { ih with }
  | recv n data h ih => exact ih.frame (.setConn rfl rfl)
  | flush sock con len hl h ih =>
    have hentry := (h.inv hI fun _ => hfresh).entry hl
    exact ih.frame (flushed_frame len hentry.2.2.1)
  | push m rest n hp ho hk hl hr h ih =>
    have hentry := (h.inv hI fun _ => hfresh).entry hl
    exact ih.frame (pushed_frame m.data hentry.2.2.1)
  | remove addr n hl h ih =>
    have hentry := (h.inv hI fun _ => hfresh).entry hl
    exact ih.removed hentry.1 hentry.2.1 hl

/-! ## Where the thread stands -/

/-- The listening socket is open while the loop runs, and when `open` has returned it is closed
and the table is empty. -/
def Staged (r : Relay) : Prop :=
  match r.phase with
  | .start => r.sck = .bound
  | .top | .dispatch _ | .drain | .closing => r.sck = .listening
  | .closed => r.sck = .closed ∧ ∀ k, r.connectionTable.lookup k = none
  | .crashed _ => True

theorem Staged.step {own : Prop} {closeReq : Bool} {puts : List (Nat × QueuedRelayMessage)}
    (hI : r.Inv own) (h0 : r.Staged) (h : r.step closeReq a = some (r', puts)) : r'.Staged := by
  have hsck := (step_change hI h).sck
  have hcallback {out : Outcome Relay} {events : List (RelayKey × Mask)}
      (hs : (afterCallback out events).sck = .listening) : (afterCallback out events).Staged := by
    unfold afterCallback at hs ⊢
    split at hs
    · exact hs
    · trivial
  have houtbound {out : Outcome Relay} (hs : (afterOutbound out).sck = .listening) :
      (afterOutbound out).Staged := by
    unfold afterOutbound at hs ⊢
    split at hs <;> exact hs
  cases step_moves h with
  | listens => rfl
  | listenFails | acceptFails => trivial
  | accepts hp | io hp =>
    simp only [Staged, hp] at h0
    exact hcallback ((hsck (by simp [hp]) (by simp [hp])).trans h0)
  | leaves hp | selects hp | wakeupRead hp | dispatched hp | drained hp =>
    simp only [Staged, hp] at h0
    exact h0
  | handles hp =>
    simp only [Staged, hp] at h0
    exact houtbound ((hsck (by simp [hp]) (by simp [hp])).trans h0)
  | cleansUp hp ha =>
    obtain ⟨n, hl⟩ := Dict.first?_mem ha
    rw [cleanUpConnection_eq hI hl]
    simpa [Staged, removed, hp] using h0
  | closes _ hnone => exact ⟨rfl, Dict.first?_eq_none hnone⟩

end
end Relay

namespace RelayRun

/-- Every step keeps the four views of the connections in agreement. -/
structure Conserved (s : RelayRun) : Prop where
  inv : s.relay.Inv True
  resources : s.relay.Resources
  staged : s.relay.Staged

theorem Conserved.step {s s' : RelayRun} {e : Event} (h : s.Conserved) (hfresh : FreshAccept s e)
    (hs : RelayRun.step s e = some s') : s'.Conserved := by
  have hinv := Inv.step h.inv (fun _ => hfresh) hs
  rcases step_cases hs with ⟨a, r, puts, rfl, hr, rfl⟩ | ⟨-, hp, _, _, _, _, hs'⟩
  · have hchange := Relay.step_change h.inv hr
    exact ⟨hinv, hchange.resources h.inv h.resources fun addr ha => hfresh addr (ha ▸ rfl),
      h.staged.step h.inv hr⟩
  · refine ⟨hinv, ?_, ?_⟩
    · rw [hs']
      exact { h.resources with }
    · have hstaged := h.staged
      rw [hs']
      exact hstaged

theorem Reachable.conserved {s : RelayRun} (h : Reachable FreshAccept s) : s.Conserved := by
  apply h.invariant (J := Conserved)
  · rintro _ ⟨port, rfl⟩
    refine ⟨Inv.start True port, ⟨?_, ?_, ?_, rfl⟩, rfl⟩
    · exact fun h => absurd h (Nat.not_lt_zero _)
    · exact fun h => absurd h (Nat.not_lt_zero _)
    · exact fun h => absurd h (Nat.not_lt_zero _)
  · exact fun s e s' h hP hs => h.step hP hs

/-- The file objects registered in the selector of the relay. -/
def Registered (r : Relay) : RelayKey → Prop
  | .listening => r.sck = .listening
  | .wakeup => r.phase ≠ .closed
  | .conn n => (r.selector n).isSome

/-- **The relay conserves its resources**: in every run in which `accept` returns no address that
is still in the table, the file objects registered at the test of the loop condition are the
listening socket, the wakeup socket and the sockets of the table, all open, and the gauge has grown
by the size of the table; and when `open` has returned, every accepted socket has been closed once,
the table is empty and the gauge is back to its start. -/
theorem resources_conserved {s : RelayRun} (h : Reachable FreshAccept s) :
    (s.relay.phase = .top →
      (∀ key, Registered s.relay key ↔ key = .listening ∨ key = .wakeup ∨
        ∃ n addr, key = .conn n ∧ s.relay.connectionTable.lookup addr = some n) ∧
      s.relay.sck = .listening ∧
      (∀ addr n, s.relay.connectionTable.lookup addr = some n →
        (s.relay.conns n).sck.isOpen = true) ∧
      s.relay.activeConnections = s.relay.connectionTable.size) ∧
    (s.relay.phase = .closed →
      (∀ n < s.relay.nconns, (s.relay.conns n).sck.closes = 1) ∧ s.relay.sck = .closed ∧
      s.relay.connectionTable.size = 0 ∧ s.relay.activeConnections = 0) := by
  obtain ⟨hI, hR, hS⟩ := h.conserved
  constructor
  · intro hp
    simp only [Relay.Staged, hp] at hS
    refine ⟨fun key => ?_, hS, fun addr n hl => (hI.entry hl).2.2.2, hR.gauge⟩
    cases key with
    | listening => exact iff_of_true hS (.inl rfl)
    | wakeup => exact iff_of_true (by simp [Registered, hp]) (.inr (.inl rfl))
    | conn n =>
      constructor
      · intro hn
        have hlt := hI.registered hn
        exact .inr (.inr ⟨n, _, rfl, (hR.registered hlt).mp hn⟩)
      · rintro (h | h | ⟨m, addr, h, hl⟩)
        · cases h
        · cases h
        · cases h
          exact (hI.entry hl).2.2.1
  · intro hp
    simp only [Relay.Staged, hp] at hS
    have hsize : s.relay.connectionTable.size = 0 := Dict.size_eq_zero hS.2
    refine ⟨fun n hn => hR.closed hn fun he => ?_, hS.1, hsize, ?_⟩
    · cases (hS.2 _).symm.trans he
    · rw [hR.gauge, hsize]
      rfl

/-- Two connections are accepted, and the first ends. -/
def oneOfTwo : List Event :=
  [.thread (.listen (.ok ())), .thread (.select [(.listening, .r)]),
    .thread (.accept (.ok (.dotted 10 0 0 1, 5000))), .thread .turn, .thread .turn,
    .thread (.select [(.conn 0, .r), (.listening, .r)]),
    .thread (.io { getpeername := .ok (), send := .ok 0, recv := .ok [] }),
    .thread (.accept (.ok (.dotted 10 0 0 2, 6000))), .thread .turn, .thread .turn]

/-- The relay is destroyed while a connection is open. -/
def destroyedWithOne : List Event :=
  oneOfTwo ++ [.atomicClose, .thread .turn, .thread .turn, .thread .turn]

theorem resources_conserved_destroyed :
    (∃ s, run freshAccept oneOfTwo = some s ∧ s.relay.phase = .top ∧
      s.relay.connectionTable.size = 1 ∧ s.relay.activeConnections = 1) ∧
    ∃ s, run freshAccept destroyedWithOne = some s ∧ s.relay.phase = .closed ∧
      s.relay.nconns = 2 ∧ ∀ n < 2, (s.relay.conns n).sck.closes = 1 := by
  constructor
  · have hx : (run freshAccept oneOfTwo).map
        (fun s => (s.relay.phase, s.relay.connectionTable.size)) = some (.top, 1) := by
      decide +kernel
    obtain ⟨s, hs, hx⟩ := Option.map_eq_some_iff.mp hx
    obtain ⟨hp, hsize⟩ := Prod.mk.inj hx
    have hr := Reachable.of_run (fun _ _ => freshAccept_iff.mp) hs
    refine ⟨s, hs, hp, hsize, ?_⟩
    rw [((resources_conserved hr).1 hp).2.2.2, hsize]
    rfl
  · have hx : (run freshAccept destroyedWithOne).map
        (fun s => (s.relay.phase, s.relay.nconns)) = some (.closed, 2) := by
      decide +kernel
    obtain ⟨s, hs, hx⟩ := Option.map_eq_some_iff.mp hx
    obtain ⟨hp, hn⟩ := Prod.mk.inj hx
    have hr := Reachable.of_run (fun _ _ => freshAccept_iff.mp) hs
    exact ⟨s, hs, hp, hn, hn ▸ ((resources_conserved hr).2 hp).1⟩

end RelayRun
end PortPort
