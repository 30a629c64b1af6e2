import PortPort.Server.RelayInv

/-! # What a step of the relay does to one connection -/

namespace PortPort
open Function (update)

namespace Relay

/-- What the callback of a socket does to a connection. -/
inductive OwnMoves : RelayConnection → RelayConnection → Prop
  | refl : OwnMoves c c
  | recv (data : Bytes) : OwnMoves c c' → OwnMoves c { c' with sck := c'.sck.recv data }
  | send (data : Bytes) : OwnMoves c c' → OwnMoves c { c' with sck := c'.sck.send data }
  | drain (len : Nat) : OwnMoves c c' → OwnMoves c { c' with
      sendq := c'.sendq.drop len
      writeEnabled := c'.writeEnabled && c'.sendq.drop len ≠ [] }
  | close : OwnMoves c c' → OwnMoves c { c' with sck := c'.sck.close }

/-- What the step of the relay `r` may do to the connection `n`. -/
inductive ConnMove (r : Relay) (a : RelayAction) (n : Nat) :
    RelayConnection → RelayConnection → Prop
  | same : ConnMove r a n c c
  | accepted (addr : Peer) (ha : a = .accept (.ok addr)) (hn : n = r.nconns) :
      ConnMove r a n c { peer := addr }
  | pushed (m : QueuedRelayMessage) (rest : List QueuedRelayMessage) (ho : r.outbound = m :: rest)
      (hk : m.kind = .message) : ConnMove r a n c
        { c with sendq := c.sendq ++ m.data, writeEnabled := true }
  | removed (m : QueuedRelayMessage) (rest : List QueuedRelayMessage) (hp : r.phase = .drain)
      (ho : r.outbound = m :: rest) (hk : m.kind = .closeConnection)
      (hc : r.connectionTable.lookup m.peer = some n) :
      ConnMove r a n c { c with sck := c.sck.close }
  | own (k : Nat) (mask : Mask) (events : List (RelayKey × Mask))
      (hp : r.phase = .dispatch ((.conn k, mask) :: events)) (ho : (r.conns k).sck.isOpen)
      (hn : n = k ∨ r.connectionTable.lookup (r.conns k).peer = some n) (h : OwnMoves c c') :
      ConnMove r a n c c'
  | dropped (hp : r.phase = .closing) : ConnMove r a n c { c with sck := c.sck.close }

theorem OwnMoves.trans {c c' c'' : RelayConnection} (h : OwnMoves c c') (h' : OwnMoves c' c'') :
    OwnMoves c c'' := by
  induction h' with
  | refl => exact h
  | recv data _ ih => exact ih.recv data
  | send data _ ih => exact ih.send data
  | drain len _ ih => exact ih.drain len
  | close _ ih => exact ih.close

section
variable {r : Relay}

/-- `clean_up_connection` closes the connection that the table has under the address. -/
theorem cleanUpConnection_conns (addr : Peer) (n : Nat) :
    (r.cleanUpConnection addr).state.conns n = r.conns n ∨
      r.connectionTable.lookup addr = some n ∧
        (r.cleanUpConnection addr).state.conns n =
          { r.conns n with sck := (r.conns n).sck.close } := by
  unfold cleanUpConnection
  split
  · exact .inl rfl
  rename_i k hk
  simp only [unregister]
  by_cases hs : (r.selector k).isSome
  · simp only [hs, if_true]
    by_cases hn : n = k
    · subst hn
      exact .inr ⟨hk, by simp [setConn]⟩
    · exact .inl (by simp [setConn, hn])
  · simp only [hs]
    exact .inl rfl

theorem modify_conns {r' : Relay} {n : Nat} {events : Mask} (h : r.modify n events = some r') :
    r'.conns = r.conns := by
  unfold modify at h
  split at h <;> cases h
  rfl

theorem handleOutbound_conns (m : QueuedRelayMessage) (n : Nat) :
    (r.handleOutbound m).state.conns n = r.conns n ∨
      m.kind = .message ∧ (r.handleOutbound m).state.conns n =
        { r.conns n with sendq := (r.conns n).sendq ++ m.data, writeEnabled := true } ∨
      m.kind = .closeConnection ∧ r.connectionTable.lookup m.peer = some n ∧
        (r.handleOutbound m).state.conns n = { r.conns n with sck := (r.conns n).sck.close } := by
  unfold handleOutbound
  split
  · exact .inl rfl
  rename_i k hk
  split
  · rename_i hm
    have hset : (r.setConn k { r.conns k with
          sendq := (r.conns k).sendq ++ m.data, writeEnabled := true }).conns n = r.conns n ∨
        (r.setConn k { r.conns k with
          sendq := (r.conns k).sendq ++ m.data, writeEnabled := true }).conns n =
          { r.conns n with sendq := (r.conns n).sendq ++ m.data, writeEnabled := true } := by
      by_cases hn : n = k
      · subst hn
        exact .inr (by simp [setConn])
      · exact .inl (by simp [setConn, hn])
    simp only
    split
    · exact hset.imp_right fun h => .inl ⟨hm, h⟩
    · split
      · rename_i r' hr'
        simp only [modify_conns hr']
        exact hset.imp_right fun h => .inl ⟨hm, h⟩
      · exact hset.imp_right fun h => .inl ⟨hm, h⟩
  · rename_i hm
    exact (cleanUpConnection_conns m.peer n).imp_right fun h => .inr ⟨hm, h⟩
  · exact .inl rfl

/-! ## Callbacks -/

/-- Nothing has changed but the connections `sock` and `con`. -/
def Touched (sock con : Nat) (r r' : Relay) : Prop :=
  ∀ n, r'.conns n = r.conns n ∨ (n = sock ∨ n = con) ∧ OwnMoves (r.conns n) (r'.conns n)

theorem Touched.of_conns {sock con : Nat} {r' : Relay} (h : r'.conns = r.conns) :
    Touched sock con r r' := fun n => .inl (by rw [h])

theorem Touched.trans {sock con : Nat} {r' r'' : Relay} (h : Touched sock con r r')
    (h' : Touched sock con r' r'') : Touched sock con r r'' := by
  intro n
  rcases h n with h | ⟨hn, h⟩ <;> rcases h' n with h' | ⟨hn', h'⟩
  · exact .inl (h'.trans h)
  · exact .inr ⟨hn', h ▸ h'⟩
  · exact .inr ⟨hn, h'.symm ▸ h⟩
  · exact .inr ⟨hn, h.trans h'⟩

theorem Touched.setConn {sock con k : Nat} {c : RelayConnection} (hk : k = sock ∨ k = con)
    (hc : OwnMoves (r.conns k) c) : Touched sock con r (r.setConn k c) := by
  intro n
  by_cases hn : n = k
  · subst hn
    exact .inr ⟨hk, by simpa [Relay.setConn] using hc⟩
  · exact .inl (by simp [Relay.setConn, hn])

theorem cleanUpConnection_touched {sock con : Nat} {addr : Peer}
    (hl : r.connectionTable.lookup addr = some con) :
    Touched sock con r (r.cleanUpConnection addr).state := by
  intro n
  rcases cleanUpConnection_conns addr n with h | ⟨hn, h⟩
  · exact .inl h
  · obtain rfl := Option.some.inj (hn.symm.trans hl)
    exact .inr ⟨.inr rfl, h.symm ▸ .close .refl⟩

theorem handleWrite_touched {sock con : Nat} {addr : Peer} (send : Except OSError Nat)
    (hl : r.connectionTable.lookup addr = some con) :
    match r.handleWrite sock con addr send with
    | .inl r' => Touched sock con r r' ∧ r'.connectionTable = r.connectionTable
    | .inr out => Touched sock con r out.state := by
  cases send with
  | ok len =>
    let r₁ := r.setConn sock { r.conns sock with
      sck := (r.conns sock).sck.send ((r.conns con).sendq.take len) }
    let c := r₁.conns con
    let sendq := c.sendq.drop len
    let r₂ := r₁.setConn con { c with sendq }
    let r₃ := r₂.setConn con { c with sendq, writeEnabled := false }
    have h₁ : Touched sock con r r₁ := .setConn (.inl rfl) (.send _ .refl)
    have hc : OwnMoves c { c with sendq, writeEnabled := c.writeEnabled && sendq ≠ [] } :=
      .drain len .refl
    by_cases hq : sendq = []
    · have h₃ : Touched sock con r r₃ := by
        have hr₃ : r₃.conns = (r₁.setConn con { c with sendq, writeEnabled := false }).conns := by
          simp [r₃, r₂, setConn]
        refine h₁.trans (Touched.trans (.setConn (.inr rfl) ?_) (.of_conns hr₃))
        simpa [hq] using hc
      cases hm : r₃.modify con .r with
      | some r' =>
        have hw : r.handleWrite sock con addr (.ok len) = .inl r' :=
          (if_pos hq).trans (by rw [hm])
        rw [hw]
        refine ⟨h₃.trans (.of_conns (modify_conns hm)), ?_⟩
        unfold modify at hm
        split at hm <;> cases hm
        rfl
      | none =>
        have hw : r.handleWrite sock con addr (.ok len) =
            .inr { state := r₃, raised := some .keyError } := (if_pos hq).trans (by rw [hm])
        rw [hw]
        exact h₃
    · have hw : r.handleWrite sock con addr (.ok len) = .inl r₂ := if_neg hq
      rw [hw]
      exact ⟨h₁.trans (.setConn (.inr rfl) (by simpa [hq] using hc)), rfl⟩
  | error e =>
    cases e with
    | brokenPipe | connectionReset => exact cleanUpConnection_touched hl
    | blockingIo => exact ⟨.of_conns rfl, rfl⟩
    | _ => exact .of_conns rfl

theorem handleRead_touched {sock con : Nat} {addr : Peer} (recv : Except OSError Bytes)
    (hl : r.connectionTable.lookup addr = some con) :
    Touched sock con r (r.handleRead sock con addr recv).state := by
  unfold handleRead
  split
  · rename_i data
    have hset : Touched sock con r
        (r.setConn sock { r.conns sock with sck := (r.conns sock).sck.recv data }) :=
      .setConn (.inl rfl) (.recv data .refl)
    simp only
    split
    · exact hset.trans (cleanUpConnection_touched hl)
    · exact hset
  · exact cleanUpConnection_touched hl
  · exact cleanUpConnection_touched hl
  · exact .of_conns rfl

theorem handleSocket_touched (sock : Nat) (mask : Mask) (io : SocketIO) :
    (r.handleSocket sock mask io).state = r ∨
      io.getpeername = .ok () ∧ ∃ con, r.connectionTable.lookup (r.conns sock).peer = some con ∧
        Touched sock con r (r.handleSocket sock mask io).state := by
  unfold handleSocket
  split
  · exact .inl rfl
  rename_i hname
  simp only
  split
  · exact .inl rfl
  rename_i con hl
  refine .inr ⟨hname, con, hl, ?_⟩
  have hwritten : match (if mask.write && (r.conns con).sendq ≠ [] then
        r.handleWrite sock con (r.conns sock).peer io.send else .inl r : Relay ⊕ Outcome Relay) with
      | .inl r' => Touched sock con r r' ∧ r'.connectionTable = r.connectionTable
      | .inr out => Touched sock con r out.state := by
    by_cases hw : (mask.write && (r.conns con).sendq ≠ [])
    · rw [if_pos hw]
      exact handleWrite_touched io.send hl
    · rw [if_neg hw]
      exact ⟨.of_conns rfl, rfl⟩
  split
  · rename_i out hout
    rw [hout] at hwritten
    exact hwritten
  · rename_i r' hr'
    rw [hr'] at hwritten
    split
    · exact hwritten.1.trans (handleRead_touched io.recv (hwritten.2 ▸ hl))
    · exact hwritten.1

end

theorem ioAllowed_isOpen {r : Relay} {sock : Nat} {io : SocketIO} (h : r.ioAllowed sock io)
    (hname : io.getpeername = .ok ()) : (r.conns sock).sck.isOpen := by
  simp only [ioAllowed, hname, Bool.and_eq_true] at h
  exact h.1.1

theorem step_conn {r r' : Relay} {closeReq : Bool} {a : RelayAction}
    {puts : List (Nat × QueuedRelayMessage)} (h : r.step closeReq a = some (r', puts)) (n : Nat) :
    ConnMove r a n (r.conns n) (r'.conns n) := by
  have hcallback (out : Outcome Relay) (events : List (RelayKey × Mask)) :
      (afterCallback out events).conns = out.state.conns := by
    unfold afterCallback
    split <;> rfl
  have houtbound (out : Outcome Relay) : (afterOutbound out).conns = out.state.conns := by
    unfold afterOutbound
    split <;> rfl
  cases step_moves h with
  | @accepts mask events addr =>
    rw [hcallback]
    by_cases hn : n = r.nconns
    · subst hn
      rw [show (r.acceptInboundConnection addr).state.conns r.nconns = { peer := addr } from
        Function.update_self ..]
      exact .accepted addr rfl rfl
    · rw [show (r.acceptInboundConnection addr).state.conns n = r.conns n from
        Function.update_of_ne hn ..]
      exact .same
  | @io k mask events io hp hio =>
    rw [hcallback]
    rcases handleSocket_touched (r := r) k mask io with hs | ⟨hname, con, hl, ht⟩
    · rw [hs]
      exact .same
    · rcases ht n with hc | ⟨hn, hc⟩
      · rw [hc]
        exact .same
      · refine .own k mask events hp (ioAllowed_isOpen hio hname) (hn.imp_right fun hn => ?_) hc
        rw [hn]
        exact hl
  | @handles m rest hp _ ho =>
    rw [houtbound]
    rcases handleOutbound_conns (r := { r with outbound := rest }) m n with
      hc | ⟨hk, hc⟩ | ⟨hk, hl, hc⟩
    · rw [hc]
      exact .same
    · rw [hc]
      exact .pushed m rest ho hk
    · rw [hc]
      exact .removed m rest hp ho hk hl
  | @cleansUp addr hp =>
    have hmove : ConnMove r .turn n (r.conns n) ((r.cleanUpConnection addr).state.conns n) := by
      rcases cleanUpConnection_conns (r := r) addr n with hc | ⟨-, hc⟩
      · rw [hc]
        exact .same
      · rw [hc]
        exact .dropped hp
    split <;> exact hmove
  | _ => exact .same

/-! ## Interest in write events -/

/-- Interest in write events is registered exactly while bytes wait. -/
def Flagged (r : Relay) : Prop := ∀ n, (r.conns n).writeEnabled = true ↔ (r.conns n).sendq ≠ []

theorem OwnMoves.flagged {c c' : RelayConnection} (h : OwnMoves c c')
    (h0 : c.writeEnabled = true ↔ c.sendq ≠ []) : c'.writeEnabled = true ↔ c'.sendq ≠ [] := by
  induction h with
  | refl => exact h0
  | recv _ _ ih | send _ _ ih => exact ih
  | @drain c' len _ ih =>
    have : c'.sendq = [] → c'.sendq.drop len = [] := fun h => by simp [h]
    simp only [Bool.and_eq_true, decide_eq_true_eq, ih]
    tauto
  | close _ ih => exact ih

end Relay

end PortPort
