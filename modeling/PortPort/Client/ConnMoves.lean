import PortPort.Client.LocalProxyInv

/-! # What a step of the local proxy does to one connection -/

namespace PortPort
open Function (update)

namespace LocalProxy

/-- What the callback of a connection does to it. -/
inductive OwnMoves : ProxiedConnection → ProxiedConnection → Prop
  | refl : OwnMoves c c
  | recv (data : Bytes) : OwnMoves c c' → OwnMoves c { c' with sck := c'.sck.recv data }
  | send (len : Nat) : OwnMoves c c' → OwnMoves c { c' with
      sck := c'.sck.send (c'.sendq.take len)
      sendq := c'.sendq.drop len
      writeEnabled := c'.writeEnabled && c'.sendq.drop len ≠ [] }
  | close (closedMsgSent : Bool) : OwnMoves c c' →
      OwnMoves c { c' with sck := c'.sck.close, closedMsgSent }

/-- What the step `a` of the local proxy `l` may do to the connection `n`. -/
inductive ConnMove (l : LocalProxy) (a : LocalAction) (n : Nat) :
    ProxiedConnection → ProxiedConnection → Prop
  | same : ConnMove l a n c c
  | made (m : QueuedRelayMessage) (io : ConnectIO) (fd : Nat) (refused : Bool) (sck : Sock)
      (ha : a = .item n io) (hn : n ∉ l.created)
      (hr : refused = true → io.connect = .error .connectionRefused)
      (rest : List QueuedRelayMessage) (hl : l.toLocal = m :: rest) (hk : m.kind = .newConnection) :
      ConnMove l a n c { addr := m.peer, relayId := m.relayPort, fd, refused, sck }
  | pushed (m : QueuedRelayMessage) (rest : List QueuedRelayMessage) (hl : l.toLocal = m :: rest)
      (hk : m.kind = .message) : ConnMove l a n c
        { c with sendq := c.sendq ++ m.data, writeEnabled := true }
  | removed (m : QueuedRelayMessage) (rest : List QueuedRelayMessage) (k : Nat) (io : ConnectIO)
      (ha : a = .item k io) (hl : l.toLocal = m :: rest) (hk : m.kind = .closeConnection)
      (hc : l.connections.lookup m.peer = some n) : ConnMove l a n c { c with sck := c.sck.close }
  | own (mask : Mask) (events : List (LocalKey × Mask))
      (hp : l.phase = .dispatch ((.conn n, mask) :: events)) (h : OwnMoves c c') :
      ConnMove l a n c c'
  | dropped (hp : l.phase = .closing) : ConnMove l a n c { c with sck := c.sck.close }

theorem register_conns (l : LocalProxy) (n : Nat) (events : Mask) :
    (l.register n events).state.conns = l.conns := by
  unfold register
  simp only
  split <;> rfl

theorem register_connections (l : LocalProxy) (n : Nat) (events : Mask) :
    (l.register n events).state.connections = l.connections := by
  unfold register
  simp only
  split <;> rfl

theorem unregister_conns (l : LocalProxy) (n : Nat) : (l.unregister n).state.conns = l.conns := by
  unfold unregister
  split <;> rfl

theorem modify_conns (l : LocalProxy) (n : Nat) (events : Mask) :
    (l.modify n events).state.conns = l.conns := by
  unfold modify
  split
  · rfl
  · split <;> rfl

section
variable {l : LocalProxy}

/-- `cleanup_socket` closes the connection that the table has under the address. -/
theorem cleanupSocket_conns (address : Peer) (n : Nat) :
    (l.cleanupSocket address).state.conns n = l.conns n ∨
      l.connections.lookup address = some n ∧
        (l.cleanupSocket address).state.conns n =
          { l.conns n with sck := (l.conns n).sck.close } := by
  unfold cleanupSocket
  split
  · exact .inl rfl
  · rename_i k hk
    simp only
    split
    · exact .inl (by rw [unregister_conns])
    · by_cases hn : n = k
      · subst hn
        exact .inr ⟨hk, by simp [setConn, unregister_conns]⟩
      · exact .inl (by simp [setConn, unregister_conns, hn])

theorem enterConnection_conns (n k : Nat) (m : QueuedRelayMessage) (fd : Nat)
    (connect : Except OSError Unit) :
    k ≠ n ∧ (l.enterConnection n m fd connect).state.conns k = l.conns k ∨
      k = n ∧ ∃ refused sck, (refused = true → connect = .error .connectionRefused) ∧
        (l.enterConnection n m fd connect).state.conns k =
          { addr := m.peer, relayId := m.relayPort, fd, refused, sck } := by
  let l₀ : LocalProxy := { l with
    conns := Function.update l.conns n { addr := m.peer, relayId := m.relayPort, fd }
    created := n :: l.created
    connections := l.connections.set m.peer n }
  let l₁ := (l₀.register n .r).state
  have hconns : l₁.conns = l₀.conns := register_conns ..
  have hself : l₁.conns n = { addr := m.peer, relayId := m.relayPort, fd } := by
    rw [hconns]
    exact Function.update_self ..
  have hother (hk : k ≠ n) : l₁.conns k = l.conns k := by
    rw [hconns]
    exact Function.update_of_ne hk ..
  have hentered : k ≠ n ∧ l₁.conns k = l.conns k ∨
      k = n ∧ ∃ refused sck, (refused = true → connect = .error .connectionRefused) ∧
        l₁.conns k = { addr := m.peer, relayId := m.relayPort, fd, refused, sck } := by
    by_cases hk : k = n
    · exact .inr ⟨hk, false, {}, nofun, hk ▸ hself⟩
    · exact .inl ⟨hk, hother hk⟩
  unfold enterConnection
  simp only
  split
  · exact hentered
  · exact hentered
  · have hl : (l₁.setConn n { l₁.conns n with refused := true }).connections.lookup m.peer =
        some n := by
      rw [show (l₁.setConn n _).connections = l₀.connections from register_connections ..,
        Dict.lookup_set, if_pos rfl]
    rcases cleanupSocket_conns (l := l₁.setConn n { l₁.conns n with refused := true }) m.peer k with
      hc | ⟨hk, hc⟩
    · rw [show (LocalProxy.cleanupSocket _ _).state.conns k = _ from hc]
      by_cases hk : k = n
      · subst hk
        exact .inr ⟨rfl, true, {}, fun _ => rfl, by simp [setConn, hself]⟩
      · exact .inl ⟨hk, by simp [setConn, hk, hother hk]⟩
    · obtain rfl := Option.some.inj (hk.symm.trans hl)
      rw [show (LocalProxy.cleanupSocket _ _).state.conns k = _ from hc]
      exact .inr ⟨rfl, true, _, fun _ => rfl, by simp [setConn, hself]; rfl⟩
  · exact hentered

theorem newConnection_conns (n k : Nat) (m : QueuedRelayMessage) (io : ConnectIO) :
    (l.newConnection n m io).state.conns k = l.conns k ∨
      k = n ∧ ∃ fd refused sck, io.socket = .ok fd ∧
        (refused = true → io.connect = .error .connectionRefused) ∧
        (l.newConnection n m io).state.conns k =
          { addr := m.peer, relayId := m.relayPort, fd, refused, sck } := by
  unfold newConnection
  split
  · rename_i fd hs
    rcases enterConnection_conns (l := l) n k m fd io.connect with ⟨-, hc⟩ | ⟨hk, b, sck, hb, hc⟩
    · exact .inl hc
    · exact .inr ⟨hk, fd, b, sck, hs, hb, hc⟩
  · exact .inl rfl

theorem message_conns (n k : Nat) (m : QueuedRelayMessage) :
    (l.message n m).state.conns k = l.conns k ∨
      (l.message n m).state.conns k =
        { l.conns k with sendq := (l.conns k).sendq ++ m.data, writeEnabled := true } := by
  unfold message
  split
  · exact .inl rfl
  · rename_i x hx
    have hset : (l.setConn x { l.conns x with
          sendq := (l.conns x).sendq ++ m.data, writeEnabled := true }).conns k = l.conns k ∨
        (l.setConn x { l.conns x with
          sendq := (l.conns x).sendq ++ m.data, writeEnabled := true }).conns k =
          { l.conns k with sendq := (l.conns k).sendq ++ m.data, writeEnabled := true } := by
      by_cases hk : k = x
      · subst hk
        exact .inr (by simp [setConn])
      · exact .inl (by simp [setConn, hk])
    simp only
    split
    · exact hset
    · rw [modify_conns]
      exact hset

theorem handleWrite_own (n k : Nat) (send : Except OSError Nat) :
    k ≠ n ∧ (l.handleWrite n send).state.conns k = l.conns k ∨
      k = n ∧ OwnMoves (l.conns n) ((l.handleWrite n send).state.conns k) := by
  by_cases hk : k = n
  · subst hk
    refine .inr ⟨rfl, ?_⟩
    unfold handleWrite
    split
    · rename_i len
      have hs := OwnMoves.send len (.refl (c := l.conns k))
      simp only
      split
      · rename_i hq
        simp only [hq] at hs
        split <;> simpa [modify_conns, setConn, wakeup, hq] using hs
      · rename_i hq
        simpa [setConn, hq] using hs
    · simpa [setConn] using OwnMoves.close true .refl
    · simpa [setConn] using OwnMoves.close true .refl
    · exact .refl
    · exact .refl
  · refine .inl ⟨hk, ?_⟩
    unfold handleWrite
    split
    · simp only
      split
      · split <;> simp [modify_conns, setConn, wakeup, hk]
      · simp [setConn, hk]
    · simp [setConn, hk]
    · simp [setConn, hk]
    · rfl
    · rfl

theorem OwnMoves.trans {c c' c'' : ProxiedConnection} (h : OwnMoves c c') (h' : OwnMoves c' c'') :
    OwnMoves c c'' := by
  induction h' with
  | refl => exact h
  | recv data _ ih => exact ih.recv data
  | send len _ ih => exact ih.send len
  | close b _ ih => exact ih.close b

theorem handleIoEvent_own (n k : Nat) (mask : Mask) (io : ConnIO) :
    k ≠ n ∧ (l.handleIoEvent n mask io).state.conns k = l.conns k ∨
      k = n ∧ OwnMoves (l.conns n) ((l.handleIoEvent n mask io).state.conns k) := by
  have hwrite (l : LocalProxy) :
      let out := if mask.write && (l.conns n).sendq ≠ [] then l.handleWrite n io.send
        else ({ state := l } : Outcome LocalProxy)
      k ≠ n ∧ out.state.conns k = l.conns k ∨
        k = n ∧ OwnMoves (l.conns n) (out.state.conns k) := by
    intro out
    by_cases hw : (mask.write && (l.conns n).sendq ≠ [])
    · simp only [out, if_pos hw]
      exact handleWrite_own n k io.send
    · rw [show out = { state := l } from if_neg hw]
      by_cases hk : k = n
      · exact .inr ⟨hk, hk ▸ .refl⟩
      · exact .inl ⟨hk, rfl⟩
  have hset {c : ProxiedConnection} (hc : OwnMoves (l.conns n) c) :
      k ≠ n ∧ (l.setConn n c).conns k = l.conns k ∨
        k = n ∧ OwnMoves (l.conns n) ((l.setConn n c).conns k) := by
    by_cases hk : k = n
    · subst hk
      exact .inr ⟨rfl, by simpa [setConn] using hc⟩
    · exact .inl ⟨hk, by simp [setConn, hk]⟩
  unfold handleIoEvent
  simp only
  split
  · split
    · rename_i data _
      have hr := OwnMoves.recv data (.refl (c := l.conns n))
      split
      · exact hset (hr.close true)
      · rcases hwrite (l.setConn n { l.conns n with sck := (l.conns n).sck.recv data }) with
          ⟨hk, hc⟩ | ⟨hk, hc⟩
        · exact .inl ⟨hk, hc.trans (by simp [setConn, hk])⟩
        · refine .inr ⟨hk, hr.trans ?_⟩
          simpa [setConn] using hc
    · exact hset (.close (l.conns n).closedMsgSent .refl)
    · exact hset (.close (l.conns n).closedMsgSent .refl)
    · exact hwrite l
    · by_cases hk : k = n
      · exact .inr ⟨hk, hk ▸ .refl⟩
      · exact .inl ⟨hk, rfl⟩
  · exact hwrite l

end

theorem step_conn {l l' : LocalProxy} {close : Bool} {a : LocalAction}
    {puts : List (Nat × QueuedRelayMessage)} (h : l.step close a = some (l', puts)) (n : Nat) :
    ConnMove l a n (l.conns n) (l'.conns n) := by
  have hdropped (addr : Peer) (hp : l.phase = .closing) :
      ConnMove l .turn n (l.conns n) ((l.cleanupSocket addr).state.conns n) := by
    rcases cleanupSocket_conns (l := l) addr n with hc | ⟨-, hc⟩
    · rw [hc]
      exact .same
    · rw [hc]
      exact .dropped hp
  cases step_moves h with
  | @item left m rest k io hp hl hguard =>
    unfold after handleItem
    cases hk : m.kind with
    | newConnection =>
      rcases newConnection_conns (l := { l with toLocal := rest }) k n m io with
        hc | ⟨rfl, fd, b, sck, hfd, hb, hc⟩
      · simp only [hc]
        exact .same
      · simp only [hc]
        refine .made m io fd b sck rfl (fun hn => hguard ⟨hk, ?_⟩) hb rest hl hk
        have := (socketAllowed_ok (l := l) (n := n) hfd).not.mpr fun h => h.1 hn
        simpa using this
    | message =>
      rcases message_conns (l := { l with toLocal := rest }) k n m with hc | hc
      · simp only [hc]
        exact .same
      · simp only [hc]
        exact .pushed m rest hl hk
    | closeConnection =>
      rcases cleanupSocket_conns (l := { l with toLocal := rest }) m.peer n with hc | ⟨hn, hc⟩
      · simp only [hc]
        exact .same
      · simp only [hc]
        exact .removed m rest k io rfl hl hk hn
  | @io k mask events io hp =>
    unfold after
    rcases handleIoEvent_own (l := l) k n mask io with ⟨-, hc⟩ | ⟨rfl, hc⟩
    · simp only [hc]
      exact .same
    · exact .own mask events hp hc
  | drops hp => exact hdropped _ hp
  | dropFails hp => exact hdropped _ hp
  | _ => exact .same

/-! ## Connections that are refused -/

/-- The local service has refused no connection. -/
def Unrefused (l : LocalProxy) : Prop := ∀ n, (l.conns n).refused = false

theorem OwnMoves.refused {c c' : ProxiedConnection} (h : OwnMoves c c') :
    c'.refused = c.refused := by
  induction h with
  | refl => rfl
  | recv _ _ ih | send _ _ ih | close _ _ ih => exact ih

theorem Unrefused.step {l l' : LocalProxy} {close : Bool} {a : LocalAction}
    {puts : List (Nat × QueuedRelayMessage)} (h : l.Unrefused)
    (hio : ∀ n io m rest, a = .item n io → l.toLocal = m :: rest → m.kind = .newConnection →
      io.connect ≠ .error .connectionRefused)
    (hs : l.step close a = some (l', puts)) : l'.Unrefused := by
  intro n
  have h0 := h n
  have hm := step_conn hs n
  generalize l.conns n = c at h0 hm
  generalize l'.conns n = c' at hm
  cases hm with
  | same | removed | dropped | pushed => exact h0
  | made m io fd b sck ha hn hb rest hl hk =>
    exact Bool.eq_false_iff.mpr fun ht => hio n io m rest ha hl hk (hb ht)
  | own mask events hp h => exact h.refused.trans h0

end LocalProxy

end PortPort
