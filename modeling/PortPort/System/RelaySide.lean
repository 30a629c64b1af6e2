import PortPort.Lib.TunnelBytes
import PortPort.Server.RelayInv
import PortPort.System.Items

/-! # The relay as the near host of a tunnel

Every step of the relay thread is matched by steps of the near host of `Tunnel`. -/

namespace PortPort
open Function (update)
open Tunnel (State Step Cond Msg)
open Transition (Steps)

/-- The relay is the near host of the tunnel. -/
structure Near (r : Relay) (t : State Peer UInt8) : Prop where
  accepted : t.accepted = r.nconns
  key : n < r.nconns → t.key n = (r.conns n).peer
  ends : t.near = r.ends
  nearTab k : t.nearTab k = r.connectionTable.lookup k

/-- The far host is not affected. -/
structure FarSame (t t' : State Peer UInt8) : Prop where
  announced : t'.announced = t.announced
  far : t'.far = t.far
  farOpen : t'.farOpen = t.farOpen
  refused : t'.refused = t.refused
  farTab : t'.farTab = t.farTab
  known : t'.known = t.known
  late : t'.late = t.late
  deaf : t'.deaf = t.deaf

theorem FarSame.refl (t : State Peer UInt8) : FarSame t t := by constructor <;> rfl

theorem FarSame.trans {t t' t'' : State Peer UInt8} (h : FarSame t t') (h' : FarSame t' t'') :
    FarSame t t'' where
  announced := h'.announced.trans h.announced
  far := h'.far.trans h.far
  farOpen := h'.farOpen.trans h.farOpen
  refused := h'.refused.trans h.refused
  farTab := h'.farTab.trans h.farTab
  known := h'.known.trans h.known
  late := h'.late.trans h.late
  deaf := h'.deaf.trans h.deaf

/-- What the fields of a relay that no message depends on have become. -/
structure Kept (r r' : Relay) : Prop where
  phase : r'.phase = r.phase
  identifyingPort : r'.identifyingPort = r.identifyingPort
  outbound : r'.outbound = r.outbound
  nconns : r.nconns ≤ r'.nconns

theorem Kept.refl (r : Relay) : Kept r r := ⟨rfl, rfl, rfl, Nat.le_refl _⟩

theorem Kept.trans {r r' r'' : Relay} (h : Kept r r') (h' : Kept r' r'') : Kept r r'' :=
  ⟨h'.phase.trans h.phase, h'.identifyingPort.trans h.identifyingPort,
    h'.outbound.trans h.outbound, h.nconns.trans h'.nconns⟩

theorem Relay.Frame.kept {r r' : Relay} (h : Relay.Frame r r') : Kept r r' :=
  ⟨h.phase, h.identifyingPort, h.outbound, Nat.le_of_eq h.nconns.symm⟩

/-- The near host has moved as the relay has; it has put these messages on the channel and left
`up` of those on their way to it. -/
structure Moves (A : State Peer UInt8 → Peer → Prop) (own : Prop) (t : State Peer UInt8)
    (r r' : Relay) (puts : List (Nat × QueuedRelayMessage)) (up : List (Nat × Msg Peer UInt8))
    (t' : State Peer UInt8) : Prop where
  steps : Steps Step (Cond A own) t t'
  inv : r'.Inv own
  near : Near r' t'
  kept : Kept r r'
  farSame : FarSame t t'
  down : t'.down = t.down ++ puts.map tagged
  putsOk : ∀ x ∈ puts, ItemOk r.identifyingPort x.2
  up : t'.up = up

section
variable {A : State Peer UInt8 → Peer → Prop} {own : Prop} {r r' r'' : Relay}
  {t t' t'' : State Peer UInt8} {puts puts' : List (Nat × QueuedRelayMessage)}

theorem Moves.refl (hI : r.Inv own) (hN : Near r t) : Moves A own t r r [] t.up t :=
  ⟨.refl, hI, hN, .refl r, .refl t, by simp, by simp, rfl⟩

theorem Moves.trans (h : Moves A own t r r' puts t.up t')
    (h' : Moves A own t' r' r'' puts' t'.up t'') :
    Moves A own t r r'' (puts ++ puts') t.up t'' where
  steps := h.steps.trans h'.steps
  inv := h'.inv
  near := h'.near
  kept := h.kept.trans h'.kept
  farSame := h.farSame.trans h'.farSame
  down := by rw [h'.down, h.down, List.map_append, List.append_assoc]
  putsOk := by
    intro x hx
    rcases List.mem_append.mp hx with hx | hx
    · exact h.putsOk x hx
    · exact h.kept.identifyingPort ▸ h'.putsOk x hx
  up := h'.up.trans h.up

/-- A relay that differs in neither bytes nor tables. -/
theorem Near.frame (hN : Near r t) (hf : Relay.Frame r r') (he : r'.ends = r.ends) : Near r' t where
  accepted := hf.nconns ▸ hN.accepted
  key hn := by rw [hf.peer]; exact hN.key (hf.nconns ▸ hn)
  ends := he ▸ hN.ends
  nearTab k := by rw [hf.connectionTable]; exact hN.nearTab k

theorem Moves.frame (hI : r.Inv own) (hN : Near r t) (hf : Relay.Frame r r')
    (he : r'.ends = r.ends) : Moves A own t r r' [] t.up t :=
  ⟨.refl, hI.frame hf, hN.frame hf he, hf.kept, .refl t, by simp, by simp, rfl⟩

/-! ## The handlers -/

theorem accept_moves {addr : Peer} (hI : r.Inv own) (hN : Near r t) (hA : A t addr)
    (hfresh : own → r.connectionTable.lookup addr = none) (hp : 0 ≤ addr.2 ∧ addr.2 < 65536) :
    ∃ t', Moves A own t r (r.acceptInboundConnection addr).state
      (r.acceptInboundConnection addr).puts t.up t' := by
  have hs : Step t (.accept addr) _ := .accept
  refine ⟨_, .single (a := .accept addr) hA hs, hI.accept hp hfresh, ?_,
    ⟨rfl, rfl, rfl, Nat.le_succ _⟩,
    by constructor <;> rfl, ?_, ?_, rfl⟩
  · exact {
      accepted := congrArg (· + 1) hN.accepted
      key := by
        intro n hn
        simp only [Relay.acceptInboundConnection, Function.update_apply, hN.accepted]
        split
        · rfl
        · exact hN.key (by simp only [Relay.acceptInboundConnection] at hn; omega)
      ends := by
        funext n
        simp only [Relay.acceptInboundConnection, Relay.ends, Function.update_apply, hN.accepted,
          hN.ends]
        split <;> rfl
      nearTab := by
        intro k
        rw [Relay.acceptInboundConnection, Dict.lookup_set]
        simp only [Function.update_apply, hN.nearTab, hN.accepted] }
  · simp [Relay.acceptInboundConnection, tagged, msgOf, QueuedRelayMessage.peer, hN.accepted]
  · simp only [Relay.acceptInboundConnection, List.mem_singleton]
    rintro _ rfl
    exact ⟨hp, rfl, by simp, fun _ => rfl⟩

theorem Near.removed {addr : Peer} {n : Nat} {down up : List (Nat × Msg Peer UInt8)}
    (hN : Near r t) :
    Near (r.removed addr n) { t with nearTab := update t.nearTab addr none, down, up } where
  accepted := hN.accepted
  key hm := by rw [Relay.removed_peer]; exact hN.key hm
  ends := by rw [Relay.ends_removed]; exact hN.ends
  nearTab k := by
    rw [Relay.removed, Dict.lookup_erase]
    simp only [Function.update_apply, hN.nearTab]

theorem Relay.Inv.closeMsg_ok {addr : Peer} {n : Nat} (hI : r.Inv own)
    (hl : r.connectionTable.lookup addr = some n) :
    ItemOk r.identifyingPort (r.closeMsg addr) :=
  have hn := hI.entry hl
  ⟨hn.2.1 ▸ hI.ports hn.1, rfl, nofun, fun _ => rfl⟩

theorem cleanUpConnection_moves {addr : Peer} {n : Nat} (hI : r.Inv own) (hN : Near r t)
    (hl : r.connectionTable.lookup addr = some n) :
    ∃ t', Moves A own t r (r.cleanUpConnection addr).state (r.cleanUpConnection addr).puts
      t.up t' := by
  rw [Relay.cleanUpConnection_eq hI hl]
  have ht := (hN.nearTab addr).trans hl
  exact ⟨_, .single (a := .nearClose addr) trivial (.nearClose ht), hI.removed hl, hN.removed,
    ⟨rfl, rfl, rfl, Nat.le_refl _⟩, by constructor <;> rfl, rfl,
    by simpa using hI.closeMsg_ok hl, rfl⟩

/-- The callback may end the thread, but what it has done by then is matched. -/
theorem handleWrite_moves {sock con : Nat} {addr : Peer} (send : Except OSError Nat)
    (hI : r.Inv own) (hN : Near r t) (hl : r.connectionTable.lookup addr = some con)
    (hsock : sock < r.nconns) (haddr : (r.conns sock).peer = addr) (ho : own → con = sock) :
    (∃ r' t', r.handleWrite sock con addr send = .inl r' ∧ Relay.Frame r r' ∧
      Moves A own t r r' [] t.up t') ∨
    ∃ out t', r.handleWrite sock con addr send = .inr out ∧
      Moves A own t r out.state out.puts t.up t' := by
  subst haddr
  have hkey : t.key sock = (r.conns sock).peer := hN.key hsock
  have ht : t.nearTab (t.key sock) = some con := hkey ▸ (hN.nearTab _).trans hl
  cases send with
  | ok len =>
    obtain ⟨r', hw, hf, he⟩ := Relay.handleWrite_ok sock len hI hl
    have hP : Cond A own t (.nearSend sock len) := fun h => ho h ▸ ht
    refine .inl ⟨r', _, hw, hf, .single hP (.nearSend ht), hI.frame hf, ?_, hf.kept,
      by constructor <;> rfl, by simp, by simp, rfl⟩
    exact {
      accepted := hf.nconns ▸ hN.accepted
      key := fun hn => by rw [hf.peer]; exact hN.key (hf.nconns ▸ hn)
      ends := by rw [he, ← hN.ends]
      nearTab := fun k => by rw [hf.connectionTable]; exact hN.nearTab k }
  | error e =>
    have hclean := cleanUpConnection_moves (A := A) hI hN hl
    cases e with
    | brokenPipe | connectionReset =>
      obtain ⟨t', hm⟩ := hclean
      exact .inr ⟨_, t', rfl, hm⟩
    | blockingIo => exact .inl ⟨r, t, rfl, .refl r, .refl hI hN⟩
    | _ => exact .inr ⟨_, t, rfl, .refl hI hN⟩

theorem handleRead_moves {sock con : Nat} {addr : Peer} {recv : Except OSError Bytes}
    (hI : r.Inv own) (hN : Near r t) (hl : r.connectionTable.lookup addr = some con)
    (hsock : sock < r.nconns) (haddr : (r.conns sock).peer = addr) (ho : own → con = sock)
    (hrecv : recvAllowed recv) :
    ∃ t', Moves A own t r (r.handleRead sock con addr recv).state
      (r.handleRead sock con addr recv).puts t.up t' := by
  subst haddr
  have hkey : t.key sock = (r.conns sock).peer := hN.key hsock
  have ht : t.nearTab (t.key sock) = some con := hkey ▸ (hN.nearTab _).trans hl
  cases recv with
  | ok data =>
    let c := r.conns sock
    let r₁ := r.setConn sock { c with sck := c.sck.recv data }
    have hf : Relay.Frame r r₁ := .setConn rfl rfl
    have he : r₁.ends = update r.ends sock ((r.ends sock).recv data) := by
      funext m
      simp only [r₁, c, Relay.ends, Relay.setConn, Function.update_apply]
      split <;> rfl
    by_cases hd : data = []
    · -- end of file
      have h₁ : Moves A own t r r₁ [] t.up t := by
        refine .frame hI hN hf ?_
        rw [he, hd]
        exact Function.update_eq_self_iff.mpr (by simp [Tunnel.End.recv])
      obtain ⟨t', h₂⟩ := cleanUpConnection_moves (A := A) h₁.inv h₁.near
        (hf.connectionTable ▸ hl)
      refine ⟨t', ?_⟩
      have := h₁.trans h₂
      simpa [Relay.handleRead, hd, r₁, c] using this
    · have hP : Cond A own t (.nearRecv sock data) := fun h => ho h ▸ ht
      have hr : r.handleRead sock con c.peer (.ok data) =
          { state := r₁
            puts := [(con, ⟨.message, c.peer.1, c.peer.2, data, r.identifyingPort⟩)] } := by
        simp [Relay.handleRead, hd, r₁, c, Relay.setConn]
      rw [hr]
      refine ⟨_, .single hP (.nearRecv ht), hI.frame hf, ?_, hf.kept, by constructor <;> rfl, ?_,
        ?_, rfl⟩
      · exact {
          accepted := hf.nconns ▸ hN.accepted
          key := fun hn => by rw [hf.peer]; exact hN.key (hf.nconns ▸ hn)
          ends := by rw [he, ← hN.ends]
          nearTab := fun k => by rw [hf.connectionTable]; exact hN.nearTab k }
      · simp [tagged, msgOf, QueuedRelayMessage.peer, c, hkey]
      · simp only [List.mem_singleton]
        rintro _ rfl
        exact ⟨hI.ports hsock, rfl, fun _ => ⟨hd, by simpa [recvAllowed] using hrecv⟩,
          fun h => absurd rfl h⟩
  | error e =>
    have hclean := cleanUpConnection_moves (A := A) hI hN hl
    cases e with
    | brokenPipe | connectionReset => exact hclean
    | _ => exact ⟨t, .refl hI hN⟩

theorem handleSocket_moves {sock : Nat} (mask : Mask) {io : Relay.SocketIO} (hI : r.Inv own)
    (hN : Near r t) (hsock : sock < r.nconns) (hio : r.ioAllowed sock io) :
    ∃ t', Moves A own t r (r.handleSocket sock mask io).state
      (r.handleSocket sock mask io).puts t.up t' := by
  simp only [Relay.ioAllowed, Bool.and_eq_true] at hio
  obtain ⟨⟨hopen, -⟩, hrecv⟩ := hio
  unfold Relay.handleSocket
  cases hg : io.getpeername with
  | error e => exact ⟨t, .refl hI hN⟩
  | ok _ =>
    rw [hg] at hopen
    cases hl : r.connectionTable.lookup (r.conns sock).peer with
    | none => exact ⟨t, by simpa only [hl] using .refl hI hN⟩
    | some con =>
      have ho : own → con = sock := fun h =>
        Option.some.inj (hl.symm.trans (hI.own h hsock hopen))
      simp only [hl]
      split
      · rename_i hout
        rcases handleWrite_moves (A := A) io.send hI hN hl hsock rfl ho with
          ⟨r₁, t₁, hw, hf, hm⟩ | ⟨out, t₁, hw, hm⟩
        · split at hout
          · exact nomatch hw.symm.trans hout
          · cases hout
        · split at hout
          · cases hw.symm.trans hout
            exact ⟨t₁, hm⟩
          · cases hout
      · rename_i r₁ hout
        have h₁ : Relay.Frame r r₁ ∧ ∃ t₁, Moves A own t r r₁ [] t.up t₁ := by
          split at hout
          · rcases handleWrite_moves (A := A) io.send hI hN hl hsock rfl ho with
              ⟨r₁, t₁, hw, hf, hm⟩ | ⟨out, t₁, hw, hm⟩
            · cases hw.symm.trans hout
              exact ⟨hf, t₁, hm⟩
            · exact nomatch hw.symm.trans hout
          · cases hout
            exact ⟨.refl r, t, .refl hI hN⟩
        obtain ⟨hf, t₁, hm⟩ := h₁
        split
        · obtain ⟨t₂, hm₂⟩ := handleRead_moves (A := A) hm.inv hm.near
            (hf.connectionTable ▸ hl) (hf.nconns ▸ hsock) (hf.peer sock) ho hrecv
          exact ⟨t₂, hm.trans hm₂⟩
        · exact ⟨t₁, hm⟩

/-- One message of the outbound queue, which the near host takes off the channel. -/
theorem handleOutbound_moves {m : QueuedRelayMessage} {x : Nat}
    {up : List (Nat × Msg Peer UInt8)} (hI : r.Inv own) (hN : Near r t)
    (hup : t.up = tagged (x, m) :: up) (hm : m.kind ≠ .newConnection) :
    ∃ t', Moves A own t r (r.handleOutbound m).state (r.handleOutbound m).puts up t' := by
  unfold Relay.handleOutbound
  cases hl : r.connectionTable.lookup m.peer with
  | none =>
    have ht : t.nearTab (msgOf m).key = none := by rw [msgOf_key, hN.nearTab, hl]
    refine ⟨_, .single (a := .nearTake) trivial (.takeUnknown hup ht), hI, ?_, .refl r,
      by constructor <;> rfl, by simp, by simp, rfl⟩
    exact { hN with }
  | some n =>
    have ht : t.nearTab m.peer = some n := (hN.nearTab _).trans hl
    have hn := hI.entry hl
    obtain ⟨kind, addr, port, data, relayPort⟩ := m
    cases kind with
    | newConnection => exact absurd rfl hm
    | message =>
      let c := r.conns n
      let r₁ := r.setConn n { c with sendq := c.sendq ++ data, writeEnabled := true }
      have hf : Relay.Frame r r₁ := .setConn rfl rfl
      have he : r₁.ends = update r.ends n ((r.ends n).push data) := by
        funext m
        simp only [r₁, c, Relay.ends, Relay.setConn, Function.update_apply]
        split <;> rfl
      have hmoves {r' : Relay} (hf : Relay.Frame r r') (he' : r'.ends = r₁.ends) :
          ∃ t', Moves A own t r r' [] up t' := by
        refine ⟨_, .single (a := .nearTake) trivial (.takeData hup ht), hI.frame hf, ?_, hf.kept,
          by constructor <;> rfl, by simp, by simp, rfl⟩
        exact {
          accepted := hf.nconns ▸ hN.accepted
          key := fun hn => by rw [hf.peer]; exact hN.key (hf.nconns ▸ hn)
          ends := by rw [he', he, ← hN.ends]
          nearTab := fun k => by rw [hf.connectionTable]; exact hN.nearTab k }
      obtain ⟨r₂, hmod, hf₂, hc⟩ := Relay.Frame.modify (r := r₁) .rw hn.2.2.1
      by_cases hw : c.writeEnabled
      · have := hmoves hf rfl
        simpa [hl, hw, c, r₁] using this
      · have := hmoves (hf.trans hf₂) (by funext m; simp only [Relay.ends, hc])
        simpa [hl, hw, c, r₁, hmod] using this
    | closeConnection =>
      rw [show (QueuedRelayMessage.peer _) = _ from rfl] at hl
      simp only [Relay.cleanUpConnection_eq hI hl]
      exact ⟨_, .single (a := .nearTake) trivial (.takeClosed hup ht), hI.removed hl, hN.removed,
        ⟨rfl, rfl, rfl, Nat.le_refl _⟩, by constructor <;> rfl, rfl,
        by simpa using hI.closeMsg_ok hl, rfl⟩

/-! ## The steps -/

/-- The near host has moved as the relay thread has in one step. -/
structure StepMoves (A : State Peer UInt8 → Peer → Prop) (own : Prop) (t : State Peer UInt8)
    (r r' : Relay) (puts : List (Nat × QueuedRelayMessage)) (t' : State Peer UInt8) : Prop where
  steps : Steps Step (Cond A own) t t'
  inv : r'.Inv own
  near : Near r' t'
  identifyingPort : r'.identifyingPort = r.identifyingPort
  farSame : FarSame t t'
  down : t'.down = t.down ++ puts.map tagged
  putsOk : ∀ x ∈ puts, ItemOk r.identifyingPort x.2
  queue : r'.outbound = r.outbound ∧ t'.up = t.up ∨
    ∃ m x, r.outbound = m :: r'.outbound ∧ t.up = tagged (x, m) :: t'.up

/-- A step that is a handler followed by a change of where the thread stands. -/
theorem Moves.toStep (h : Moves A own t r r' puts t.up t')
    {r'' : Relay} (hI : r''.Inv own) (hN : Near r'' t')
    (hp : r''.identifyingPort = r'.identifyingPort) (ho : r''.outbound = r'.outbound) :
    StepMoves A own t r r'' puts t' where
  steps := h.steps
  inv := hI
  near := hN
  identifyingPort := hp.trans h.kept.identifyingPort
  farSame := h.farSame
  down := h.down
  putsOk := h.putsOk
  queue := .inl ⟨ho.trans h.kept.outbound, h.up⟩

theorem Relay.Inv.goto (hI : r.Inv own) {phase : RelayPhase} {sck : ServerSocket}
    {atomicClose wakeupPending : Bool}
    (h : ∀ events, phase = .dispatch events → ∀ n mask, (.conn n, mask) ∈ events → n < r.nconns) :
    ({ r with phase, sck, atomicClose, wakeupPending } : Relay).Inv own :=
  { hI with dispatch := fun hp hm => h _ hp _ _ hm }

theorem Near.goto (hN : Near r t) (phase : RelayPhase) (sck : ServerSocket)
    (atomicClose wakeupPending : Bool) :
    Near { r with phase, sck, atomicClose, wakeupPending } t := { hN with }

theorem StepMoves.goto (hI : r.Inv own) (hN : Near r t) {phase : RelayPhase} {sck : ServerSocket}
    {atomicClose wakeupPending : Bool}
    (h : ∀ events, phase = .dispatch events → ∀ n mask, (.conn n, mask) ∈ events → n < r.nconns) :
    StepMoves A own t r { r with phase, sck, atomicClose, wakeupPending } [] t :=
  (Moves.refl hI hN).toStep (hI.goto h) (hN.goto ..) rfl rfl

theorem afterCallback_moves {out : Outcome Relay} {events : List (RelayKey × Mask)}
    (h : Moves A own t r out.state out.puts t.up t')
    (he : ∀ n mask, (.conn n, mask) ∈ events → n < out.state.nconns) :
    StepMoves A own t r (Relay.afterCallback out events) out.puts t' := by
  unfold Relay.afterCallback
  split
  · refine h.toStep (h.inv.goto ?_) (h.near.goto ..) rfl rfl
    intro _ hp
    cases hp
    exact he
  · exact h.toStep (h.inv.goto nofun) (h.near.goto ..) rfl rfl

theorem afterOutbound_moves {m : QueuedRelayMessage} {outbound : List QueuedRelayMessage} {x : Nat}
    {up : List (Nat × Msg Peer UInt8)} {out : Outcome Relay} (ho : r.outbound = m :: outbound)
    (hup : t.up = tagged (x, m) :: up)
    (h : Moves A own t { r with outbound } out.state out.puts up t') :
    StepMoves A own t r (Relay.afterOutbound out) out.puts t' := by
  have hmoves {phase : RelayPhase} {atomicClose : Bool} (hp : ∀ events, phase ≠ .dispatch events) :
      StepMoves A own t r { out.state with phase, atomicClose } out.puts t' :=
    { steps := h.steps
      inv := h.inv.goto fun events he => absurd he (hp events)
      near := h.near.goto ..
      identifyingPort := h.kept.identifyingPort
      farSame := h.farSame
      down := h.down
      putsOk := h.putsOk
      queue := .inr ⟨m, x, by rw [ho, ← show out.state.outbound = outbound from h.kept.outbound],
        by rw [hup, h.up]⟩ }
  unfold Relay.afterOutbound
  split <;> exact hmoves nofun

theorem relay_step_moves {closeReq : Bool} {a : Relay.RelayAction} (hI : r.Inv own)
    (hN : Near r t)
    (hup : ∀ m rest, r.outbound = m :: rest →
      m.kind ≠ .newConnection ∧ ∃ x up, t.up = tagged (x, m) :: up)
    (hA : ∀ addr, a = .accept (.ok addr) → A t addr)
    (hfresh : own → ∀ addr, a = .accept (.ok addr) → r.connectionTable.lookup addr = none)
    (h : r.step closeReq a = some (r', puts)) : ∃ t', StepMoves A own t r r' puts t' := by
  cases Relay.step_moves h with
  | selects _ hsel =>
    refine ⟨t, .goto hI hN fun events he n mask hm => ?_⟩
    cases he
    simp only [Relay.selectable, Bool.and_eq_true, List.all_eq_true] at hsel
    have := hsel.2.2 _ hm
    exact hI.registered (by cases hs : r.selector n <;> simp_all)
  | @accepts mask events addr hp hport =>
    obtain ⟨t', hm⟩ := accept_moves hI hN (hA addr rfl) (fun ho => hfresh ho addr rfl) hport
    refine ⟨t', afterCallback_moves hm fun n mask he => ?_⟩
    exact Nat.lt_succ_of_lt (hI.dispatch hp (List.mem_cons_of_mem _ he))
  | @io n mask events io hp hio =>
    have hn := hI.dispatch hp List.mem_cons_self
    obtain ⟨t', hm⟩ := handleSocket_moves (A := A) mask hI hN hn hio
    refine ⟨t', afterCallback_moves hm fun n mask he => ?_⟩
    exact Nat.lt_of_lt_of_le (hI.dispatch hp (List.mem_cons_of_mem _ he)) hm.kept.nconns
  | wakeupRead hp =>
    refine ⟨t, .goto hI hN fun events he n mask hm => ?_⟩
    cases he
    exact hI.dispatch hp (List.mem_cons_of_mem _ hm)
  | @handles m rest _ _ ho =>
    obtain ⟨hm, x, up, hup⟩ := hup m rest ho
    obtain ⟨t', hmoves⟩ := handleOutbound_moves (A := A) (r := { r with outbound := rest })
      { hI with } { hN with } hup hm
    exact ⟨t', afterOutbound_moves ho hup hmoves⟩
  | cleansUp _ ha =>
    obtain ⟨n, hl⟩ := Dict.first?_mem ha
    obtain ⟨t', hm⟩ := cleanUpConnection_moves (A := A) hI hN hl
    refine ⟨t', ?_⟩
    rw [Relay.cleanUpConnection_eq hI hl] at hm ⊢
    exact hm.toStep hm.inv hm.near rfl rfl
  | _ => exact ⟨t, .goto hI hN nofun⟩

end
end PortPort
