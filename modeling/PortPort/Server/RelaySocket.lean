import PortPort.Server.Relay

/-! # The listening socket of a relay

No callback touches the relay's own socket, its identifying port, its queue or its close event: the
socket listens from the first statement of `open` on and is closed by the last, and only the drain
takes messages off the queue. -/

namespace PortPort
namespace Relay

/-- The relay's own socket, its port, its close event and what has woken it up are the same. -/
structure SameSocket (r r' : Relay) : Prop where
  port : r'.identifyingPort = r.identifyingPort
  sck : r'.sck = r.sck
  atomicClose : r'.atomicClose = r.atomicClose
  woken : r'.woken = r.woken

/-- The callbacks write no more of a relay than its connections, their tables and the gauge. -/
def Serves (r r' : Relay) : Prop :=
  ∃ connectionTable conns nconns selector activeConnections,
    r' = { r with connectionTable, conns, nconns, selector, activeConnections }

section
variable {r r' r'' : Relay} {n : Nat} {addr : Peer}

theorem Serves.refl (r : Relay) : Serves r r := ⟨_, _, _, _, _, rfl⟩

theorem Serves.trans (h : Serves r r') (h' : Serves r' r'') : Serves r r'' := by
  obtain ⟨_, _, _, _, _, rfl⟩ := h
  obtain ⟨_, _, _, _, _, rfl⟩ := h'
  exact ⟨_, _, _, _, _, rfl⟩

theorem setConn_serves (r : Relay) (n : Nat) (c : RelayConnection) : Serves r (r.setConn n c) :=
  ⟨_, _, _, _, _, rfl⟩

theorem modify_serves {events : Mask} (h : r.modify n events = some r') : Serves r r' := by
  simp only [modify, Option.ite_none_right_eq_some, Option.some.injEq] at h
  obtain ⟨-, rfl⟩ := h
  exact ⟨_, _, _, _, _, rfl⟩

theorem unregister_serves (h : r.unregister n = some r') : Serves r r' := by
  simp only [unregister, Option.ite_none_right_eq_some, Option.some.injEq] at h
  obtain ⟨-, rfl⟩ := h
  exact ⟨_, _, _, _, _, rfl⟩

theorem cleanUpConnection_serves (r : Relay) (addr : Peer) :
    Serves r (r.cleanUpConnection addr).state := by
  unfold cleanUpConnection
  split
  · exact .refl r
  · simp only
    split
    · exact ⟨_, _, _, _, _, rfl⟩
    · rename_i hr
      obtain ⟨_, _, _, _, _, rfl⟩ := unregister_serves hr
      exact ⟨_, _, _, _, _, rfl⟩

theorem handleRead_serves (r : Relay) (sock con : Nat) (addr : Peer)
    (recv : Except OSError Bytes) : Serves r (r.handleRead sock con addr recv).state := by
  unfold handleRead
  split
  · simp only
    split
    · exact (setConn_serves ..).trans (cleanUpConnection_serves ..)
    · exact setConn_serves ..
  · exact cleanUpConnection_serves ..
  · exact cleanUpConnection_serves ..
  · exact .refl r

theorem handleWrite_serves {sock con : Nat} {send : Except OSError Nat}
    {x : Relay ⊕ Outcome Relay} (h : r.handleWrite sock con addr send = x) :
    Serves r (Sum.elim id Outcome.state x) := by
  unfold handleWrite at h
  split at h
  · simp only at h
    split at h
    · split at h
      · rename_i hr
        cases h
        exact .trans ⟨_, _, _, _, _, rfl⟩ (modify_serves hr)
      · cases h
        exact ⟨_, _, _, _, _, rfl⟩
    · cases h
      exact ⟨_, _, _, _, _, rfl⟩
  · cases h
    exact cleanUpConnection_serves ..
  · cases h
    exact cleanUpConnection_serves ..
  · cases h
    exact .refl r
  · cases h
    exact .refl r

theorem handleSocket_serves (r : Relay) (sock : Nat) (mask : Mask) (io : SocketIO) :
    Serves r (r.handleSocket sock mask io).state := by
  unfold handleSocket
  split
  · exact .refl r
  simp only
  split
  · exact .refl r
  rename_i con _
  have hread (r' : Relay) (h : Serves r r') : Serves r (if mask.read = true then
      r'.handleRead sock con (r.conns sock).peer io.recv else { state := r' }).state := by
    split
    · exact h.trans (handleRead_serves ..)
    · exact h
  split
  · rename_i out hw
    split at hw
    · exact handleWrite_serves hw
    · cases hw
  · rename_i r' hw
    split at hw
    · exact hread r' (handleWrite_serves hw)
    · cases hw
      exact hread r (.refl r)

theorem handleOutbound_serves (r : Relay) (m : QueuedRelayMessage) :
    Serves r (r.handleOutbound m).state := by
  unfold handleOutbound
  split
  · exact .refl r
  split
  · simp only
    split
    · exact setConn_serves ..
    · split
      · rename_i hr
        exact (setConn_serves ..).trans (modify_serves hr)
      · exact setConn_serves ..
  · exact cleanUpConnection_serves ..
  · exact .refl r

end

/-- What a step does to the relay's own socket: the thread listens first, and closes it last. -/
structure SocketStep (r : Relay) (a : RelayAction) (r' : Relay) : Prop where
  port : r'.identifyingPort = r.identifyingPort
  started : r'.phase ≠ .start
  atomicClose : r.atomicClose = true → r'.atomicClose = true
  woken : r'.woken = r.woken
  sck : r'.sck = r.sck ∨ r.phase = .start ∧ a = .listen (.ok ()) ∧ r'.sck = .listening ∨
    r.phase = .closing ∧ r'.phase = .closed ∧ r'.sck = .closed

theorem SameSocket.step {r r' : Relay} {a : RelayAction} (h : SameSocket r r')
    (hp : r'.phase ≠ .start) : SocketStep r a r' :=
  ⟨h.port, hp, h.atomicClose.trans, h.woken, .inl h.sck⟩

theorem Serves.afterCallback {r : Relay} {a : RelayAction} {out : Outcome Relay}
    {events : List (RelayKey × Mask)} (h : Serves r out.state) :
    SocketStep r a (afterCallback out events) ∧
      (Relay.afterCallback out events).outbound = r.outbound := by
  obtain ⟨_, _, _, _, _, hout⟩ := h
  unfold Relay.afterCallback
  rw [hout]
  split
  · exact ⟨SameSocket.step ⟨rfl, rfl, rfl, rfl⟩ nofun, rfl⟩
  · exact ⟨SameSocket.step ⟨rfl, rfl, rfl, rfl⟩ nofun, rfl⟩

theorem Serves.afterOutbound {r : Relay} {a : RelayAction} {out : Outcome Relay}
    (h : Serves r out.state) : SocketStep r a (afterOutbound out) ∧
      (Relay.afterOutbound out).outbound = r.outbound := by
  obtain ⟨_, _, _, _, _, hout⟩ := h
  unfold Relay.afterOutbound
  rw [hout]
  split
  · exact ⟨SameSocket.step ⟨rfl, rfl, rfl, rfl⟩ nofun, rfl⟩
  · exact ⟨SameSocket.step ⟨rfl, rfl, rfl, rfl⟩ nofun, rfl⟩
  · exact ⟨⟨rfl, nofun, fun _ => rfl, rfl, .inl rfl⟩, rfl⟩

/-- A step of the thread and the socket, and what it leaves of the queue. -/
theorem step_socket_queue {r r' : Relay} {closeReq : Bool} {a : RelayAction}
    {puts : List (Nat × QueuedRelayMessage)} (h : r.step closeReq a = some (r', puts)) :
    SocketStep r a r' ∧ r'.outbound <:+ r.outbound := by
  have hsame {r' : Relay} (h : SocketStep r a r' ∧ r'.outbound = r.outbound) :
      SocketStep r a r' ∧ r'.outbound <:+ r.outbound :=
    ⟨h.1, h.2 ▸ List.suffix_refl _⟩
  cases step_moves h with
  | listens hp => exact hsame ⟨⟨rfl, nofun, id, rfl, .inr (.inl ⟨hp, rfl, rfl⟩)⟩, rfl⟩
  | accepts =>
    apply hsame
    exact Serves.afterCallback ⟨_, _, _, _, _, rfl⟩
  | io => exact hsame (handleSocket_serves ..).afterCallback
  | wakeupRead =>
    exact hsame ⟨⟨rfl, nofun, fun ha => Bool.or_eq_true_iff.mpr (.inl ha), rfl, .inl rfl⟩, rfl⟩
  | @handles m rest _ _ ho =>
    have hserves := handleOutbound_serves { r with outbound := rest } m
    obtain ⟨hs, hq⟩ := hserves.afterOutbound (a := .turn)
    refine ⟨⟨hs.port, hs.started, hs.atomicClose, hs.woken, hs.sck⟩, ?_⟩
    rw [hq, ho]
    exact List.suffix_cons ..
  | @cleansUp addr hp =>
    obtain ⟨_, _, _, _, _, hs⟩ := cleanUpConnection_serves r addr
    apply hsame
    rw [hs]
    split
    · exact ⟨SameSocket.step ⟨rfl, rfl, rfl, rfl⟩ (by simp [hp]), rfl⟩
    · exact ⟨SameSocket.step ⟨rfl, rfl, rfl, rfl⟩ nofun, rfl⟩
  | closes hp => exact hsame ⟨⟨rfl, nofun, id, rfl, .inr (.inr ⟨hp, rfl, rfl⟩)⟩, rfl⟩
  | _ => exact hsame ⟨SameSocket.step ⟨rfl, rfl, rfl, rfl⟩ nofun, rfl⟩

theorem step_socket {r r' : Relay} {closeReq : Bool} {a : RelayAction}
    {puts : List (Nat × QueuedRelayMessage)} (h : r.step closeReq a = some (r', puts)) :
    SocketStep r a r' := (step_socket_queue h).1

/-- The thread puts nothing on its own queue. -/
theorem step_queue {r r' : Relay} {closeReq : Bool} {a : RelayAction}
    {puts : List (Nat × QueuedRelayMessage)} (h : r.step closeReq a = some (r', puts)) :
    r'.outbound <:+ r.outbound := (step_socket_queue h).2

theorem step_listen {r r' : Relay} {closeReq : Bool} {result : Except OSError Unit}
    {puts : List (Nat × QueuedRelayMessage)}
    (h : r.step closeReq (.listen result) = some (r', puts)) : r.phase = .start := by
  cases step_moves h with
  | listens hp => exact hp
  | listenFails hp => exact hp

/-! ## Construction -/

theorem bindLoop_bound {ports : List Int} {results : List BindResult} {port p : Int}
    (h : bindLoop ports results = some (.ok (some (port, p)))) : .bound p ∈ results := by
  induction ports generalizing results with
  | nil => cases h
  | cons q ports ih =>
    match results, h with
    | .bound p' :: results, h =>
      simp only [bindLoop] at h
      split at h <;> cases h
      exact List.mem_cons_self
    | .osError _ :: results, h => exact List.mem_cons_of_mem _ (ih h)

theorem init_bound {portRange : Option (Int × Int)} {results : List BindResult} {r : Relay}
    (h : init portRange results = some (.ok r)) :
    ∃ p, .bound p ∈ results ∧ r = { identifyingPort := p } := by
  unfold init at h
  split at h
  · split at h
    · cases h
    · cases h
    · split at h
      · rename_i hloop
        split at h <;> cases h
        exact ⟨_, bindLoop_bound hloop, rfl⟩
      · cases h
  · split at h <;> cases h
    exact ⟨_, List.mem_cons_self, rfl⟩

/-- There are results of the `bind` calls with which the construction comes to its end. -/
theorem init_possible (portRange : Option (Int × Int)) :
    ∃ results : List BindResult, (∀ r ∈ results, ∃ e, r = .osError e) ∧
      (init portRange results).isSome = true := by
  have hloop (ports : List Int) :
      bindLoop ports (List.replicate ports.length (.osError (.other 98))) = some (.ok none) := by
    induction ports with
    | nil => rfl
    | cons port ports ih => exact ih
  cases portRange with
  | none => exact ⟨[.osError (.other 98)], fun r hr => ⟨_, List.mem_singleton.mp hr⟩, rfl⟩
  | some range =>
    refine ⟨List.replicate (portsOf range.1 range.2).length (.osError (.other 98)),
      fun r hr => ⟨_, List.eq_of_mem_replicate hr⟩, ?_⟩
    simp only [init, hloop]
    rfl

end Relay
end PortPort
