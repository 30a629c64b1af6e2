import PortPort.Server.RelayInv

/-! # What one step of the relay does

Every step is a few elementary changes, each described by one constructor of `Change`. An
invariant of the relay is proved constructor by constructor. -/

namespace PortPort
open Function (update update_idem)

namespace Relay

/-- The relay behind a `send` that accepted `len` bytes: write events are no longer of interest
once nothing waits. -/
def flushed (r : Relay) (sock con len : Nat) : Relay :=
  let s := r.conns sock
  let r := r.setConn sock { s with sck := s.sck.send ((r.conns con).sendq.take len) }
  let c := r.conns con
  let sendq := c.sendq.drop len
  { r with
    conns := update r.conns con { c with sendq, writeEnabled := c.writeEnabled && sendq ≠ [] }
    selector := if sendq = [] then update r.selector con (some .r) else r.selector }

/-- The relay behind data that it has appended to the `sendq` of the connection `n`. -/
def pushed (r : Relay) (n : Nat) (data : Bytes) : Relay :=
  let c := r.conns n
  { r with
    conns := update r.conns n { c with sendq := c.sendq ++ data, writeEnabled := true }
    selector := if c.writeEnabled then r.selector else update r.selector n (some .rw) }

/-- The step `a` of the relay `r` may do this. -/
inductive Change (r : Relay) (a : RelayAction) : Relay → Prop
  | refl : Change r a r
  | accept (addr : Peer) (ha : a = .accept (.ok addr)) (hport : 0 ≤ addr.2 ∧ addr.2 < 65536) :
      Change r a (r.acceptInboundConnection addr).state
  | goto (phase : RelayPhase) (sck : ServerSocket) (outbound : List QueuedRelayMessage)
      (atomicClose wakeupPending : Bool)
      (hs : sck = r'.sck ∨ r.phase = .start ∨ r.phase = .closing) (h : Change r a r') :
      Change r a { r' with phase, sck, outbound, atomicClose, wakeupPending }
  | recv (n : Nat) (data : Bytes) (h : Change r a r') :
      Change r a (r'.setConn n { r'.conns n with sck := (r'.conns n).sck.recv data })
  | flush (sock con len : Nat) (hl : r'.connectionTable.lookup (r'.conns sock).peer = some con)
      (h : Change r a r') : Change r a (r'.flushed sock con len)
  | push (m : QueuedRelayMessage) (rest : List QueuedRelayMessage) (n : Nat)
      (hp : r.phase = .drain) (ho : r.outbound = m :: rest) (hk : m.kind = .message)
      (hl : r'.connectionTable.lookup m.peer = some n)
      (hr : r'.conns = r.conns ∧ r'.connectionTable = r.connectionTable) (h : Change r a r') :
      Change r a (r'.pushed n m.data)
  | remove (addr : Peer) (n : Nat) (hl : r'.connectionTable.lookup addr = some n)
      (h : Change r a r') : Change r a (r'.removed addr n)

section
variable {r r' : Relay} {a : RelayAction}

theorem pushed_frame {n : Nat} (data : Bytes) (h : (r.selector n).isSome) :
    Frame r (r.pushed n data) := by
  have hc := Frame.setConn (r := r) (n := n)
    (c := { r.conns n with sendq := (r.conns n).sendq ++ data, writeEnabled := true }) rfl rfl
  refine { hc with selector := fun m => ?_ }
  by_cases hm : m = n
  · subst hm
    cases hw : (r.conns m).writeEnabled <;> simp [pushed, hw, h]
  · cases hw : (r.conns n).writeEnabled <;> simp [pushed, hw, hm]

/-- The write part of `handle_socket` behind a `send` that returned. -/
theorem handleWrite_eq {sock con : Nat} {addr : Peer} (len : Nat)
    (h : (r.selector con).isSome) :
    r.handleWrite sock con addr (.ok len) = .inl (r.flushed sock con len) := by
  let r₁ := r.setConn sock
    { r.conns sock with sck := (r.conns sock).sck.send ((r.conns con).sendq.take len) }
  have hs : (r₁.selector con).isSome := h
  unfold handleWrite flushed
  simp only
  rw [show r.setConn sock _ = r₁ from rfl]
  clear_value r₁
  by_cases hq : (r₁.conns con).sendq.drop len = []
  · simp only [if_pos hq, modify, setConn, update_idem, hs, if_true]
    simp [hq]
  · simp only [if_neg hq, setConn]
    simp [hq]

theorem flushed_frame {sock con : Nat} (len : Nat) (h : (r.selector con).isSome) :
    Frame r (r.flushed sock con len) := by
  let r₁ := r.setConn sock
    { r.conns sock with sck := (r.conns sock).sck.send ((r.conns con).sendq.take len) }
  have h₁ : Frame r r₁ := .setConn rfl rfl
  let sendq := (r₁.conns con).sendq.drop len
  have h₂ : Frame r₁ (r₁.setConn con { r₁.conns con with
      sendq, writeEnabled := (r₁.conns con).writeEnabled && sendq ≠ [] }) := .setConn rfl rfl
  refine { h₁.trans h₂ with selector := fun m => ?_ }
  have hs : (r.flushed sock con len).selector =
    if sendq = [] then update r.selector con (some .r) else r.selector := rfl
  rw [hs]
  split
  · by_cases hm : m = con
    · simp [hm, h]
    · simp [hm]
  · rfl

/-! ## The handlers -/

section
variable {own : Prop}

theorem cleanUpConnection_change {addr : Peer} {n : Nat} (hI : r'.Inv own)
    (hl : r'.connectionTable.lookup addr = some n) (h : Change r a r') :
    Change r a (r'.cleanUpConnection addr).state := by
  rw [cleanUpConnection_eq hI hl]
  exact .remove addr n hl h

theorem handleRead_change {sock con : Nat} {addr : Peer} (recv : Except OSError Bytes)
    (hI : r'.Inv own) (hl : r'.connectionTable.lookup addr = some con) (h : Change r a r') :
    Change r a (r'.handleRead sock con addr recv).state := by
  cases recv with
  | ok data =>
    have hrecv := Change.recv sock data h
    unfold handleRead
    simp only
    split
    · exact cleanUpConnection_change (hI.frame (.setConn rfl rfl)) hl hrecv
    · exact hrecv
  | error e =>
    cases e with
    | connectionReset | brokenPipe => exact cleanUpConnection_change hI hl h
    | _ => exact h

/-- The write part of `handle_socket` either leaves a relay that the read part goes on with, or
ends the callback. -/
theorem handleWrite_change {sock con : Nat} {addr : Peer} (send : Except OSError Nat)
    (ha : addr = (r.conns sock).peer) (hI : r.Inv own)
    (hl : r.connectionTable.lookup addr = some con) :
    (∃ r', r.handleWrite sock con addr send = .inl r' ∧ Change r a r' ∧ Frame r r') ∨
      ∃ out, r.handleWrite sock con addr send = .inr out ∧ Change r a out.state := by
  cases send with
  | ok len =>
    exact .inl ⟨_, handleWrite_eq len (hI.entry hl).2.2.1, .flush sock con len (ha ▸ hl) .refl,
      flushed_frame len (hI.entry hl).2.2.1⟩
  | error e =>
    have hclean : Change r a (r.cleanUpConnection addr).state :=
      cleanUpConnection_change hI hl .refl
    cases e with
    | brokenPipe | connectionReset => exact .inr ⟨_, rfl, hclean⟩
    | blockingIo => exact .inl ⟨r, rfl, .refl, .refl r⟩
    | _ => exact .inr ⟨_, rfl, .refl⟩

theorem handleSocket_change {sock : Nat} (mask : Mask) (io : SocketIO) (hI : r.Inv own) :
    Change r a (r.handleSocket sock mask io).state := by
  unfold handleSocket
  cases io.getpeername with
  | error e => exact .refl
  | ok _ =>
    cases hl : r.connectionTable.lookup (r.conns sock).peer with
    | none => simpa only [hl] using .refl
    | some con =>
      simp only [hl]
      have hread {r' : Relay} (hc : Change r a r') (hf : Frame r r') : Change r a
          (if mask.read then r'.handleRead sock con (r.conns sock).peer io.recv
            else { state := r' } : Outcome Relay).state := by
        split
        · exact handleRead_change io.recv (hI.frame hf) (hf.connectionTable ▸ hl) hc
        · exact hc
      by_cases hw : (mask.write && (r.conns con).sendq ≠ [])
      · simp only [if_pos hw]
        rcases handleWrite_change io.send rfl hI hl (a := a) with
          ⟨r', hr', hc, hf⟩ | ⟨out, hout, hc⟩
        · rw [hr']
          exact hread hc hf
        · rw [hout]
          exact hc
      · simp only [if_neg hw]
        exact hread .refl (.refl r)

theorem handleOutbound_change {m : QueuedRelayMessage} {rest : List QueuedRelayMessage}
    (hp : r.phase = .drain) (ho : r.outbound = m :: rest) (hI : r.Inv own) :
    Change r a ({ r with outbound := rest }.handleOutbound m).state := by
  have hpop : Change r a { r with outbound := rest } :=
    .goto r.phase r.sck rest _ _ (.inl rfl) .refl
  have hI' : ({ r with outbound := rest } : Relay).Inv own := { hI with }
  unfold handleOutbound
  cases hl : r.connectionTable.lookup m.peer with
  | none => exact hpop
  | some n =>
    simp only
    cases hk : m.kind with
    | newConnection => exact hpop
    | closeConnection => exact cleanUpConnection_change hI' hl hpop
    | message =>
      have hpush : Change r a (({ r with outbound := rest } : Relay).pushed n m.data) :=
        .push m rest n hp ho hk hl ⟨rfl, rfl⟩ hpop
      have hs : (r.selector n).isSome := (hI.entry hl).2.2.1
      simp only
      split
      · rename_i hw
        simpa [pushed, hw, setConn] using hpush
      · rename_i hw
        simpa [pushed, hw, setConn, modify, hs] using hpush

/-! ## The steps -/

theorem step_change {closeReq : Bool} {puts : List (Nat × QueuedRelayMessage)} (hI : r.Inv own)
    (h : r.step closeReq a = some (r', puts)) : Change r a r' := by
  have hcallback {out : Outcome Relay} (events : List (RelayKey × Mask))
      (hc : Change r a out.state) : Change r a (afterCallback out events) := by
    unfold afterCallback
    split <;> exact .goto _ out.state.sck out.state.outbound _ _ (.inl rfl) hc
  have houtbound {out : Outcome Relay} (hc : Change r a out.state) :
      Change r a (afterOutbound out) := by
    unfold afterOutbound
    split <;> exact .goto _ out.state.sck out.state.outbound _ _ (.inl rfl) hc
  cases step_moves h with
  | listens hp => exact .goto _ _ r.outbound _ _ (.inr (.inl hp)) .refl
  | accepts _ hport => exact hcallback _ (.accept _ rfl hport)
  | io => exact hcallback _ (handleSocket_change _ _ hI)
  | handles hp _ ho => exact houtbound (handleOutbound_change hp ho hI)
  | @cleansUp addr _ ha =>
    obtain ⟨n, hl⟩ := Dict.first?_mem ha
    rw [cleanUpConnection_eq hI hl]
    exact .remove addr n hl .refl
  | closes hp => exact .goto _ _ r.outbound _ _ (.inr (.inr hp)) .refl
  | _ => exact .goto _ r.sck r.outbound _ _ (.inl rfl) .refl

theorem Change.nconns (h : Change r a r') : r.nconns ≤ r'.nconns := by
  induction h with
  | refl => exact Nat.le_refl _
  | accept => exact Nat.le_succ _
  | goto | recv | flush | push | remove => assumption

theorem Change.sck (hs : r.phase ≠ .start) (hc : r.phase ≠ .closing) (h : Change r a r') :
    r'.sck = r.sck := by
  induction h with
  | refl | accept => rfl
  | goto phase sck outbound atomicClose wakeupPending hsck h ih =>
    rcases hsck with hsck | hsck | hsck
    · exact hsck.trans ih
    · exact absurd hsck hs
    · exact absurd hsck hc
  | recv | flush | push | remove => assumption

/-- The invariant, but for the events still to be handled. -/
theorem Change.inv (hI : r.Inv own)
    (hfresh : own → ∀ addr, a = .accept (.ok addr) → r.connectionTable.lookup addr = none)
    (h : Change r a r') : ({ r' with phase := .top } : Relay).Inv own := by
  have htop {r : Relay} (hI : r.Inv own) : ({ r with phase := .top } : Relay).Inv own :=
    { hI with dispatch := nofun }
  induction h with
  | refl => exact htop hI
  | accept addr ha hport => exact htop (hI.accept hport fun ho => hfresh ho addr ha)
  | goto phase sck outbound atomicClose wakeupPending hs h ih => exact { ih with }
  | recv n data h ih => exact ih.frame (.setConn rfl rfl)
  | flush sock con len hl h ih => exact ih.frame (flushed_frame len (ih.entry hl).2.2.1)
  | push m rest n hp ho hk hl hr h ih => exact ih.frame (pushed_frame m.data (ih.entry hl).2.2.1)
  | remove addr n hl h ih => exact ih.removed hl

theorem step_dispatch {closeReq : Bool} {puts : List (Nat × QueuedRelayMessage)} (hI : r.Inv own)
    (h : r.step closeReq a = some (r', puts)) {events : List (RelayKey × Mask)}
    (hp : r'.phase = .dispatch events) {n : Nat} {mask : Mask} (hm : (.conn n, mask) ∈ events) :
    n < r'.nconns := by
  have hc := step_change hI h
  apply Nat.lt_of_lt_of_le _ hc.nconns
  have hcallback {out : Outcome Relay} {rest : List (RelayKey × Mask)}
      (h : (afterCallback out rest).phase = .dispatch events) : events = rest := by
    unfold afterCallback at h
    split at h <;> cases h
    rfl
  have houtbound (out : Outcome Relay) : (afterOutbound out).phase ≠ .dispatch events := by
    unfold afterOutbound
    split <;> exact nofun
  cases step_moves h with
  | selects _ hsel =>
    cases hp
    simp only [selectable, Bool.and_eq_true, List.all_eq_true] at hsel
    have hreg := hsel.2.2 _ hm
    apply hI.registered
    cases hs : r.selector n with
    | none => simp [hs] at hreg
    | some m => rfl
  | accepts hph | io hph =>
    cases hcallback hp
    exact hI.dispatch hph (List.mem_cons_of_mem _ hm)
  | wakeupRead hph =>
    cases hp
    exact hI.dispatch hph (List.mem_cons_of_mem _ hm)
  | handles => exact absurd hp (houtbound _)
  | cleansUp hph ha =>
    obtain ⟨n, hl⟩ := Dict.first?_mem ha
    rw [cleanUpConnection_eq hI hl] at hp
    cases hph.symm.trans hp
  | _ => cases hp

theorem Inv.step {closeReq : Bool} {puts : List (Nat × QueuedRelayMessage)} (hI : r.Inv own)
    (hfresh : own → ∀ addr, a = .accept (.ok addr) → r.connectionTable.lookup addr = none)
    (h : r.step closeReq a = some (r', puts)) : r'.Inv own :=
  { (step_change hI h).inv hI hfresh with
    dispatch := fun hp hm => step_dispatch hI h hp hm }

end

end

end Relay
end PortPort
