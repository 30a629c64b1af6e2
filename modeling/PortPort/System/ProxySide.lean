import PortPort.Client.LocalProxyInv
import PortPort.Lib.TunnelBytes
import PortPort.System.Items

/-! # The local proxy as the far host of a tunnel

Every step of the local proxy thread is matched by steps of the far host of `Tunnel`. -/

namespace PortPort
open Function (update)
open Tunnel (State Step Cond Msg)
open Transition (Steps)

/-- The local proxy is the far host of the tunnel. -/
structure Far (l : LocalProxy) (t : State Peer UInt8) : Prop where
  key : n ∈ l.created → n < t.announced ∧ t.key n = (l.conns n).addr
  ends : t.far = l.ends
  farOpen n : t.farOpen n ↔ n ∈ l.created ∧ (l.conns n).sck.isOpen
  refused n : t.refused n ↔ (l.conns n).refused
  farTab k : t.farTab k = l.connections.lookup k
  deaf : t.deaf ↔ l.lost ≠ none

/-- The near host is not affected. -/
structure NearSame (t t' : State Peer UInt8) : Prop where
  accepted : t'.accepted = t.accepted
  key : t'.key = t.key
  near : t'.near = t.near
  nearTab : t'.nearTab = t.nearTab

theorem NearSame.refl (t : State Peer UInt8) : NearSame t t := by constructor <;> rfl

theorem NearSame.trans {t t' t'' : State Peer UInt8} (h : NearSame t t') (h' : NearSame t' t'') :
    NearSame t t'' where
  accepted := h'.accepted.trans h.accepted
  key := h'.key.trans h.key
  near := h'.near.trans h.near
  nearTab := h'.nearTab.trans h.nearTab

/-- The far host has moved as the local proxy has; it has put these messages on the channel and
left `down` of those on their way to it. -/
structure FarMoves (A : State Peer UInt8 → Peer → Prop) (own : Prop) (t : State Peer UInt8)
    (l l' : LocalProxy) (puts : List (Nat × QueuedRelayMessage))
    (down : List (Nat × Msg Peer UInt8)) (t' : State Peer UInt8) : Prop where
  steps : Steps Step (Cond A own) t t'
  inv : l'.Inv
  far : Far l' t'
  remotePort : l'.remotePort = l.remotePort
  toLocal : l'.toLocal = l.toLocal
  lost : l'.lost = l.lost
  nearSame : NearSame t t'
  down : t'.down = down
  up : t'.up = t.up ++ puts.map tagged
  late : t'.late = t.late
  putsOk : ∀ x ∈ puts, ItemOk l.remotePort x.2 ∧ x.2.kind ≠ .newConnection

section
variable {A : State Peer UInt8 → Peer → Prop} {own : Prop} {l l' l'' : LocalProxy}
  {t t' t'' : State Peer UInt8} {puts puts' : List (Nat × QueuedRelayMessage)}

theorem FarMoves.refl (hI : l.Inv) (hF : Far l t) : FarMoves A own t l l [] t.down t :=
  ⟨.refl, hI, hF, rfl, rfl, rfl, .refl t, rfl, by simp, rfl, by simp⟩

theorem FarMoves.trans {down : List (Nat × Msg Peer UInt8)}
    (h : FarMoves A own t l l' puts down t') (h' : FarMoves A own t' l' l'' puts' t'.down t'') :
    FarMoves A own t l l'' (puts ++ puts') down t'' where
  steps := h.steps.trans h'.steps
  inv := h'.inv
  far := h'.far
  remotePort := h'.remotePort.trans h.remotePort
  toLocal := h'.toLocal.trans h.toLocal
  lost := h'.lost.trans h.lost
  nearSame := h.nearSame.trans h'.nearSame
  down := h'.down.trans h.down
  up := by rw [h'.up, h.up, List.map_append, List.append_assoc]
  late := h'.late.trans h.late
  putsOk := by
    intro x hx
    rcases List.mem_append.mp hx with hx | hx
    · exact h.putsOk x hx
    · exact h.remotePort ▸ h'.putsOk x hx

/-- The map of the selector is no part of what the far host is. -/
theorem Far.fdToKey (hF : Far l t) (fdToKey : Nat → Option (Nat × Mask)) :
    Far { l with fdToKey } t := { hF with }

theorem LocalProxy.Inv.fdToKey (hI : l.Inv) {fdToKey : Nat → Option (Nat × Mask)}
    (h : ∀ fd x, fdToKey fd = some x → l.fdToKey fd = some x) :
    ({ l with fdToKey } : LocalProxy).Inv :=
  { hI with registered := fun hk => hI.registered (h _ _ hk) }

theorem FarMoves.fdToKey {down : List (Nat × Msg Peer UInt8)}
    (h : FarMoves A own t l l' puts down t') {fdToKey : Nat → Option (Nat × Mask)}
    (hk : ∀ fd x, fdToKey fd = some x → l'.fdToKey fd = some x) :
    FarMoves A own t l { l' with fdToKey } puts down t' :=
  { h with inv := h.inv.fdToKey hk, far := h.far.fdToKey _ }

/-- The relation when only the connection `n` has changed. -/
theorem Far.frame {n : Nat} (hF : Far l t) (hf : LocalProxy.Frame n l l')
    (ha : t'.announced = t.announced) (hk : t'.key = t.key)
    (he : t'.far = l'.ends) (hn : t'.farOpen n ↔ n ∈ l.created ∧ (l'.conns n).sck.isOpen)
    (ho : ∀ m, m ≠ n → (t'.farOpen m ↔ t.farOpen m)) (hr : t'.refused = t.refused)
    (ht : t'.farTab = t.farTab) (hd : t'.deaf = t.deaf) : Far l' t' where
  key hm := by rw [ha, hk, hf.addr]; exact hF.key (hf.created ▸ hm)
  ends := he
  farOpen m := by
    by_cases hm : m = n
    · rw [hm, hn, hf.created]
    · rw [ho m hm, hF.farOpen, hf.created, hf.isOpen m hm]
  refused m := by rw [hr, hF.refused, hf.refused]
  farTab k := by rw [ht, hF.farTab, hf.connections]
  deaf := by rw [hd, hF.deaf, hf.lost]

/-- A connection not yet announced has not been made. -/
theorem Far.fresh (hF : Far l t) {n : Nat} (h : n = t.announced) : n ∉ l.created :=
  fun hn => Nat.lt_irrefl n (h ▸ (hF.key hn).1)

/-- Nothing has changed but flags and the events of the connection `n`. -/
theorem FarMoves.frame {n : Nat} (hI : l.Inv) (hF : Far l t) (hf : LocalProxy.Frame n l l')
    (ho : (l'.conns n).sck.isOpen = (l.conns n).sck.isOpen) (he : l'.ends = l.ends) :
    FarMoves A own t l l' [] t.down t :=
  ⟨.refl, hI.frame hf,
    hF.frame hf rfl rfl (he ▸ hF.ends) (by rw [hF.farOpen, ho]) (fun _ _ => .rfl) rfl rfl rfl,
    hf.remotePort, hf.toLocal, hf.lost, .refl t, rfl, by simp, rfl, by simp⟩

/-! ## Socket events -/

section
variable (A own)
variable {n : Nat} (hI : l.Inv) (hF : Far l t) (hn : n ∈ l.created)
  (hopen : (l.conns n).sck.isOpen)
include hI hF hn hopen

theorem farRecv_moves {data : Bytes} (hd : data ≠ []) (hlen : data.length ≤ RECV_SIZE) :
    let c := l.conns n
    ∃ t', FarMoves A own t l (l.setConn n { c with sck := c.sck.recv data })
      [(n, ⟨.message, c.addr.1, c.addr.2, data, c.relayId⟩)] t.down t' := by
  have hf : LocalProxy.Frame n l
    (l.setConn n { l.conns n with sck := (l.conns n).sck.recv data }) := .setConn rfl rfl rfl rfl
  have ho := (hF.farOpen n).mpr ⟨hn, hopen⟩
  obtain ⟨hport, hrelay⟩ := hI.conn hn
  refine ⟨_, .single (a := .farRecv n data) trivial (.farRecv ho), hI.frame hf, ?_, rfl, rfl, rfl,
    by constructor <;> rfl, rfl, ?_, rfl, ?_⟩
  · refine hF.frame hf rfl rfl ?_ ?_ (fun _ _ => .rfl) rfl rfl rfl
    · funext m
      simp only [LocalProxy.ends, LocalProxy.setConn, Function.update_apply, hF.ends]
      split <;> rfl
    · simp [ho, hn, LocalProxy.setConn, hopen]
  · simp [tagged, msgOf, QueuedRelayMessage.peer, (hF.key hn).2]
  · simp only [List.mem_singleton]
    rintro _ rfl
    exact ⟨⟨hport, hrelay, fun _ => ⟨hd, hlen⟩, fun h => absurd rfl h⟩, by simp⟩

theorem farSend_moves (len : Nat) (writeEnabled : Bool) :
    let c := l.conns n
    ∃ t', FarMoves A own t l
      (l.setConn n { c with
        sck := c.sck.send (c.sendq.take len), sendq := c.sendq.drop len, writeEnabled })
      [] t.down t' := by
  have hf : LocalProxy.Frame n l
    (l.setConn n { l.conns n with
      sck := (l.conns n).sck.send ((l.conns n).sendq.take len)
      sendq := (l.conns n).sendq.drop len
      writeEnabled }) := .setConn rfl rfl rfl rfl
  have ho := (hF.farOpen n).mpr ⟨hn, hopen⟩
  refine ⟨_, .single (a := .farSend n len) trivial (.farSend ho), hI.frame hf, ?_, rfl, rfl, rfl,
    by constructor <;> rfl, rfl, by simp, rfl, by simp⟩
  refine hF.frame hf rfl rfl ?_ ?_ (fun _ _ => .rfl) rfl rfl rfl
  · funext m
    simp only [Tunnel.End.flush_self, LocalProxy.ends, LocalProxy.setConn, Function.update_apply,
      hF.ends]
    split <;> rfl
  · simp [ho, hn, LocalProxy.setConn, hopen]

theorem farEnd_moves (tell : Bool) {c : ProxiedConnection} (ha : c.addr = (l.conns n).addr)
    (hr : c.relayId = (l.conns n).relayId) (hfd : c.fd = (l.conns n).fd)
    (hr' : c.refused = (l.conns n).refused) (hc : c.sck.isOpen = false)
    (hrecv : c.sck.received = (l.conns n).sck.received) (hsent : c.sck.sent = (l.conns n).sck.sent)
    (hq : c.sendq = (l.conns n).sendq) :
    ∃ t', FarMoves A own t l (l.setConn n c)
      (if tell then [(n, ⟨.closeConnection, c.addr.1, c.addr.2, [], c.relayId⟩)] else [])
      t.down t' := by
  have hf : LocalProxy.Frame n l (l.setConn n c) := .setConn ha hr hfd hr'
  have ho := (hF.farOpen n).mpr ⟨hn, hopen⟩
  obtain ⟨hport, hrelay⟩ := hI.conn hn
  refine ⟨_, .single (a := .farEnd n tell) trivial (.farEnd ho), hI.frame hf, ?_, rfl, rfl, rfl,
    by constructor <;> rfl, rfl, ?_, rfl, ?_⟩
  · refine hF.frame hf rfl rfl ?_ ?_ (fun m hm => by simp [hm]) rfl rfl rfl
    · funext m
      simp only [LocalProxy.ends, LocalProxy.setConn, Function.update_apply, hF.ends]
      split
      · rename_i h
        rw [h, hrecv, hsent, hq]
      · rfl
    · simp [LocalProxy.setConn, hc]
  · cases tell <;> simp [tagged, msgOf, QueuedRelayMessage.peer, (hF.key hn).2, ha]
  · cases tell with
    | false => simp
    | true =>
      simp only [if_true, List.mem_singleton]
      rintro _ rfl
      exact ⟨.close (ha ▸ hport) (hr.trans hrelay), by simp⟩

theorem handleWrite_local_moves {send : Except OSError Nat} :
    ∃ t', FarMoves A own t l (l.handleWrite n send).state (l.handleWrite n send).puts t.down t' ∧
      ((l.handleWrite n send).raised = none →
        LocalProxy.Frame n l (l.handleWrite n send).state) := by
  cases send with
  | ok len =>
    let c := l.conns n
    by_cases hq : c.sendq.drop len = []
    · let l₁ := l.setConn n { c with
        sck := c.sck.send (c.sendq.take len), sendq := c.sendq.drop len, writeEnabled := false }
      have hf₁ : LocalProxy.Frame n l l₁ := .setConn rfl rfl rfl rfl
      obtain ⟨t', hm⟩ := farSend_moves A own hI hF hn hopen len false
      rcases LocalProxy.modify_cases l₁ n .r with ⟨l₂, hr, hf, hc⟩ | ⟨e, f, hr, hk⟩
      · have hf₂ := hf.trans (.wakeup n _)
        have hunfold : l.handleWrite n (.ok len) = { state := l₂.wakeup } :=
          (if_pos hq).trans (by rw [hr])
        rw [hunfold]
        refine ⟨t', ?_, fun _ => hf₁.trans hf₂⟩
        refine hm.trans (.frame hm.inv hm.far hf₂ ?_ ?_)
        · exact congrArg (fun conns => (conns n).sck.isOpen) hc
        · funext m
          exact congrArg (fun conns => Tunnel.End.mk (conns m).sck.received (conns m).sck.sent
            (conns m).sendq) hc
      · have hunfold : l.handleWrite n (.ok len) =
            { state := { l₁ with fdToKey := f }, raised := some e } :=
          (if_pos hq).trans (by rw [hr])
        rw [hunfold]
        exact ⟨t', hm.fdToKey hk, by simp⟩
    · obtain ⟨t', hm⟩ := farSend_moves A own hI hF hn hopen len c.writeEnabled
      have hunfold : l.handleWrite n (.ok len) = { state := l.setConn n { c with
          sck := c.sck.send (c.sendq.take len), sendq := c.sendq.drop len } } := by
        simp only [LocalProxy.handleWrite, hq, c, if_false]
      rw [hunfold]
      exact ⟨t', hm, fun _ => .setConn rfl rfl rfl rfl⟩
  | error e =>
    cases e with
    | connectionReset | brokenPipe =>
      obtain ⟨t', hm⟩ := farEnd_moves A own hI hF hn hopen true
        (c := { l.conns n with sck := (l.conns n).sck.close, closedMsgSent := true })
        rfl rfl rfl rfl (Sock.close_isOpen _) rfl rfl rfl
      exact ⟨t', hm, fun _ => .setConn rfl rfl rfl rfl⟩
    | blockingIo => exact ⟨t, .refl hI hF, fun _ => .refl n l⟩
    | _ => exact ⟨t, .refl hI hF, by simp [LocalProxy.handleWrite]⟩

/-- The part of `handle_io_event` behind the read. -/
theorem writePart_moves (mask : Mask) (send : Except OSError Nat) :
    let out : Outcome LocalProxy :=
      if mask.write && (l.conns n).sendq ≠ [] then l.handleWrite n send else { state := l }
    ∃ t', FarMoves A own t l out.state out.puts t.down t' ∧
      (out.raised = none → LocalProxy.Frame n l out.state) := by
  intro out
  by_cases hw : (mask.write && (l.conns n).sendq ≠ [])
  · simp only [out, if_pos hw]
    exact handleWrite_local_moves A own hI hF hn hopen
  · simp only [out, if_neg hw]
    exact ⟨t, .refl hI hF, fun _ => .refl n l⟩

theorem handleIoEvent_moves (mask : Mask) (io : LocalProxy.ConnIO) (hrecv : recvAllowed io.recv) :
    ∃ t', FarMoves A own t l (l.handleIoEvent n mask io).state (l.handleIoEvent n mask io).puts
        t.down t' ∧
      ((l.handleIoEvent n mask io).raised = none →
        LocalProxy.Frame n l (l.handleIoEvent n mask io).state) := by
  have hwrite := writePart_moves A own hI hF hn hopen mask io.send
  unfold LocalProxy.handleIoEvent
  split
  · cases hr : io.recv with
    | ok data =>
      by_cases hd : data = []
      · -- end of file
        subst hd
        obtain ⟨t', hm⟩ := farEnd_moves A own hI hF hn hopen true
          (c := { l.conns n with sck := ((l.conns n).sck.recv []).close, closedMsgSent := true })
          rfl rfl rfl rfl (Sock.close_isOpen _) (by simp) rfl rfl
        exact ⟨t', hm, fun _ => .setConn rfl rfl rfl rfl⟩
      · rw [hr] at hrecv
        have hlen : data.length ≤ RECV_SIZE := by simpa [recvAllowed] using hrecv
        obtain ⟨t₁, h₁⟩ := farRecv_moves A own hI hF hn hopen hd hlen
        let l₁ := l.setConn n { l.conns n with sck := (l.conns n).sck.recv data }
        have hc : l₁.conns n = { l.conns n with sck := (l.conns n).sck.recv data } :=
          Function.update_self ..
        have hf₁ : LocalProxy.Frame n l l₁ := .setConn rfl rfl rfl rfl
        obtain ⟨t₂, h₂, hf₂⟩ := writePart_moves (l := l₁) A own h₁.inv h₁.far hn
          (by rw [hc]; exact hopen) mask io.send
        simp only [hd, if_false]
        exact ⟨t₂, h₁.trans h₂, fun hr => hf₁.trans (hf₂ hr)⟩
    | error e =>
      cases e with
      | connectionReset | brokenPipe =>
        obtain ⟨t', hm⟩ := farEnd_moves A own hI hF hn hopen false
          (c := { l.conns n with sck := (l.conns n).sck.close })
          rfl rfl rfl rfl (Sock.close_isOpen _) rfl rfl rfl
        exact ⟨t', hm, fun _ => .setConn rfl rfl rfl rfl⟩
      | blockingIo => exact hwrite
      | _ => exact ⟨t, .refl hI hF, nofun⟩
  · exact hwrite

end

/-! ## Items from the relay -/

section
variable (A own)
variable {n : Nat} {m : QueuedRelayMessage} {down : List (Nat × Msg Peer UInt8)} (hI : l.Inv)
  (hF : Far l t) (hd : t.down = tagged (n, m) :: down) (hlate : t.Hears)
  (hm : ItemOk l.remotePort m)
include hI hF hd hlate hm

theorem entered_far (hk : m.kind = .newConnection) (hkey : n = t.announced ∧ t.key n = m.peer)
    (fd : Nat) :
    ∃ t', FarMoves A own t l (l.entered n m fd) [] down t' := by
  have hn := hF.fresh hkey.1
  have hd' : t.down = (n, .opened m.peer) :: down := by simpa [tagged, msgOf, hk] using hd
  have hc (x : Nat) : (l.entered n m fd).conns x =
      if x = n then { addr := m.peer, relayId := m.relayPort, fd } else l.conns x :=
    Function.update_apply ..
  refine ⟨_, .single (a := .farNew false) trivial (.farNew hd' hlate),
    hI.entered hn hm.port hm.relayPort, ?_, rfl, rfl, rfl, by constructor <;> rfl, rfl, by simp,
    rfl, by simp⟩
  constructor
  case key =>
    intro x hx
    rw [hc]
    split
    · rename_i h
      rw [h]
      exact ⟨hkey.1 ▸ Nat.lt_succ_self _, hkey.2⟩
    · rename_i h
      have hkx := hF.key ((List.mem_cons.mp hx).resolve_left h)
      exact ⟨Nat.lt_succ_of_lt hkx.1, hkx.2⟩
  case ends =>
    funext x
    simp only [LocalProxy.ends, hc, Function.update_apply, hF.ends]
    split <;> rfl
  case farOpen =>
    intro x
    simp only [Function.update_apply, hc]
    split
    · rename_i h
      simp [h, LocalProxy.entered, Sock.isOpen]
    · rename_i h
      simp [hF.farOpen, LocalProxy.entered, h]
  case refused =>
    intro x
    simp only [Function.update_apply, hc]
    split
    · simp
    · exact hF.refused x
  case farTab =>
    intro k
    rw [LocalProxy.entered_lookup]
    simp only [Function.update_apply, hF.farTab]
  case deaf => exact hF.deaf

theorem refused_far (hk : m.kind = .newConnection) (hkey : n = t.announced ∧ t.key n = m.peer)
    (fd : Nat) :
    ∃ t', FarMoves A own t l (l.refusedAt n m fd)
      [(n, ⟨.closeConnection, m.addr, m.port, [], l.remotePort⟩)] down t' := by
  have hn := hF.fresh hkey.1
  have hd' : t.down = (n, .opened m.peer) :: down := by simpa [tagged, msgOf, hk] using hd
  have hc := l.refusedAt_conns n m fd
  refine ⟨_, .single (a := .farNew true) trivial (.farRefused hd' hlate),
    hI.refusedAt hn hm.port hm.relayPort, ?_, rfl, rfl, rfl, by constructor <;> rfl, rfl,
    by simp [tagged, msgOf, QueuedRelayMessage.peer], rfl, ?_⟩
  · constructor
    case key =>
      intro x hx
      rw [hc]
      split
      · rename_i h
        rw [h]
        exact ⟨hkey.1 ▸ Nat.lt_succ_self _, hkey.2⟩
      · rename_i h
        have hkx := hF.key ((List.mem_cons.mp hx).resolve_left h)
        exact ⟨Nat.lt_succ_of_lt hkx.1, hkx.2⟩
    case ends =>
      funext x
      simp only [LocalProxy.ends, hc, Function.update_apply, hF.ends]
      split <;> rfl
    case farOpen =>
      intro x
      simp only [Function.update_apply, hc]
      split
      · simp
      · rename_i h
        rw [hF.farOpen]
        exact and_congr_left' (List.mem_cons.trans (or_iff_right h)).symm
    case refused =>
      intro x
      simp only [Function.update_apply, hc]
      split
      · simp
      · exact hF.refused x
    case farTab =>
      intro k
      simp only [LocalProxy.refusedAt, LocalProxy.removed, Dict.lookup_erase]
      rw [show (LocalProxy.setConn _ n _).connections = (l.entered n m fd).connections from rfl,
        LocalProxy.entered_lookup]
      simp only [Function.update_apply, hF.farTab]
      split <;> rfl
    case deaf => exact hF.deaf
  · simp only [List.mem_singleton]
    rintro _ rfl
    exact ⟨.close hm.port rfl, by simp⟩

/-- What the handling of an item comes to: besides the moves, that the selector still has every
connection of the table unless the thread has ended. -/
theorem newConnection_moves {io : LocalProxy.ConnectIO} {fd : Nat} (hs : io.socket = .ok fd)
    (hr : l.Registered) (hk : m.kind = .newConnection)
    (hkey : n = t.announced ∧ t.key n = m.peer) :
    ∃ t', FarMoves A own t l (l.newConnection n m io).state (l.newConnection n m io).puts down t' ∧
      ((l.newConnection n m io).raised = none → (l.newConnection n m io).state.Registered) := by
  have hn := hF.fresh hkey.1
  rw [LocalProxy.newConnection_made hs]
  by_cases hfd : (l.fdToKey fd).isSome
  · rw [LocalProxy.enterConnection_taken hfd]
    obtain ⟨t', hmoves⟩ := entered_far A own hI hF hd hlate hm hk hkey fd
    exact ⟨t', hmoves, nofun⟩
  · rw [Bool.not_eq_true] at hfd
    have hreg := hr.enteredAt hI hn hfd (m := m)
    have hentered : ∃ t', FarMoves A own t l (l.enteredAt n m fd) [] down t' := by
      obtain ⟨t', hmoves⟩ := entered_far A own hI hF hd hlate hm hk hkey fd
      exact ⟨t', { hmoves with
        inv := hI.enteredAt hn hm.port hm.relayPort
        far := hmoves.far.fdToKey _ }⟩
    cases hio : io.connect with
    | ok _ =>
      rw [LocalProxy.enterConnection_free hfd]
      obtain ⟨t', hmoves⟩ := hentered
      exact ⟨t', hmoves, fun _ => hreg⟩
    | error e =>
      by_cases he : e = .connectionRefused
      · subst he
        rw [LocalProxy.enterConnection_refused hfd]
        obtain ⟨t', hmoves⟩ := refused_far A own hI hF hd hlate hm hk hkey fd
        exact ⟨t', hmoves, fun _ => hr.refusedAt hI hn hm.port hm.relayPort hfd⟩
      · rw [LocalProxy.enterConnection_free hfd]
        obtain ⟨t', hmoves⟩ := hentered
        cases e with
        | connectionRefused => exact absurd rfl he
        | _ => exact ⟨t', hmoves, nofun⟩

theorem message_moves (hr : l.Registered) (hk : m.kind = .message) :
    ∃ t', FarMoves A own t l (l.message n m).state (l.message n m).puts down t' ∧
      ((l.message n m).raised = none → (l.message n m).state.Registered) := by
  have hd' : t.down = (n, .data m.peer m.data) :: down := by simpa [tagged, msgOf, hk] using hd
  unfold LocalProxy.message
  cases hl : l.connections.lookup m.peer with
  | none =>
    have ht := (hF.farTab m.peer).trans hl
    refine ⟨_, ⟨.single (a := .farTake) trivial (.farUnknown hd' ht hlate), hI, { hF with },
      rfl, rfl, rfl, by constructor <;> rfl, rfl, by simp [tagged, msgOf, QueuedRelayMessage.peer],
      rfl, ?_⟩, fun _ => hr⟩
    simp only [List.mem_singleton]
    rintro _ rfl
    exact ⟨.close hm.port rfl, by simp⟩
  | some k =>
    have ht := (hF.farTab m.peer).trans hl
    let c := l.conns k
    let l₁ := l.setConn k { c with sendq := c.sendq ++ m.data, writeEnabled := true }
    have hf : LocalProxy.Frame k l l₁ := .setConn rfl rfl rfl rfl
    have hopen : (l₁.conns k).sck.isOpen = (l.conns k).sck.isOpen := by
      simp [l₁, c, LocalProxy.setConn]
    have h₁ : ∃ t', FarMoves A own t l l₁ [] down t' := by
      refine ⟨_, .single (a := .farTake) trivial (.farData hd' ht hlate), hI.frame hf, ?_, rfl, rfl,
        rfl, by constructor <;> rfl, rfl, by simp, rfl, by simp⟩
      refine hF.frame hf rfl rfl ?_ ?_ (fun _ _ => .rfl) rfl rfl rfl
      · funext x
        simp only [LocalProxy.ends, l₁, c, LocalProxy.setConn, Function.update_apply, hF.ends]
        split <;> rfl
      · rw [hopen]
        exact hF.farOpen k
    obtain ⟨t', h₁⟩ := h₁
    simp only
    split
    · exact ⟨t', h₁, fun _ => hr.frame hf⟩
    · rcases LocalProxy.modify_cases l₁ k .rw with ⟨l₂, hraise, hf₂, hc⟩ | ⟨e, f, hraise, hkeys⟩
      · rw [show (l.setConn k _).modify k .rw = _ from hraise]
        have he : l₂.ends = l₁.ends := by
          funext x
          simp only [LocalProxy.ends, hc]
        exact ⟨t', h₁.trans (.frame h₁.inv h₁.far hf₂ (by rw [hc]) he),
          fun _ => (hr.frame hf).frame hf₂⟩
      · rw [show (l.setConn k _).modify k .rw = _ from hraise]
        exact ⟨t', h₁.fdToKey hkeys, by simp⟩

omit hm in
/-- A close is matched when it finds its address in the table, and also when it does not. -/
theorem cleanupSocket_moves (hr : l.Registered) (hk : m.kind = .closeConnection) :
    ∃ t', FarMoves A own t l (l.cleanupSocket m.peer).state (l.cleanupSocket m.peer).puts down t' ∧
      (l.cleanupSocket m.peer).state.Registered := by
  have hd' : t.down = (n, .closed m.peer) :: down := by simpa [tagged, msgOf, hk] using hd
  cases hl : l.connections.lookup m.peer with
  | none =>
    have ht := (hF.farTab m.peer).trans hl
    have hc : l.cleanupSocket m.peer = { state := l, raised := some .keyError } := by
      simp [LocalProxy.cleanupSocket, hl]
    rw [hc]
    refine ⟨_, ⟨.single (a := .farTake) trivial (.farClosed hd' hlate), hI, ?_, rfl, rfl,
      rfl, by constructor <;> rfl, rfl, by simp, rfl, by simp⟩, hr⟩
    exact { hF with
      farOpen := fun x => by simp [ht, hF.farOpen]
      farTab := fun k => by
        simp only [Function.update_apply]
        split
        · rename_i h
          rw [h, hl]
        · exact hF.farTab k }
  | some x =>
    have ht := (hF.farTab m.peer).trans hl
    rw [LocalProxy.cleanupSocket_eq hr hl]
    refine ⟨_, ⟨.single (a := .farTake) trivial (.farClosed hd' hlate), hI.removed, ?_, rfl, rfl,
      rfl, by constructor <;> rfl, rfl, by simp, rfl, by simp⟩, hr.removed hI hl⟩
    exact {
      key := fun hx => by rw [LocalProxy.removed_addr]; exact hF.key hx
      ends := by rw [LocalProxy.ends_removed]; exact hF.ends
      farOpen := fun y => by
        rw [LocalProxy.removed_isOpen, Bool.and_eq_true, decide_eq_true_iff]
        have hne : some x ≠ some y ↔ y ≠ x := by
          rw [ne_eq, Option.some.injEq]
          exact ne_comm
        simp only [hF.farOpen, ht, hne, and_assoc]
        rfl
      refused := fun y => by rw [LocalProxy.removed_refused]; exact hF.refused y
      farTab := fun k => by
        rw [LocalProxy.removed, Dict.lookup_erase]
        simp only [Function.update_apply, hF.farTab]
      deaf := hF.deaf }

end

/-! ## The steps -/

/-- What holds of the local proxy between two steps. -/
structure ProxyOk (l : LocalProxy) : Prop where
  inv : l.Inv
  registered : (∀ e, l.phase ≠ .crashed e) → l.Registered
  ready : l.phase = .dispatch events → l.Ready events
  lost : l.lost ≠ none → ∃ e, l.phase = .crashed e

theorem ProxyOk.lost_eq_none (h : ProxyOk l) (hp : ∀ e, l.phase ≠ .crashed e) : l.lost = none := by
  by_contra hne
  obtain ⟨e, he⟩ := h.lost hne
  exact hp e he

/-- A thread that no exception has ended still has all its items on its queue. -/
theorem ProxyOk.pending_eq (h : ProxyOk l) (hp : ∀ e, l.phase ≠ .crashed e) :
    l.pending = l.toLocal := LocalProxy.pending_eq (h.lost_eq_none hp)

/-- The far host has moved as the local proxy thread has in one step. What the thread puts on its
queue behind its loop, the far host does not send any more. -/
structure FarStepMoves (A : State Peer UInt8 → Peer → Prop) (own : Prop) (t : State Peer UInt8)
    (l l' : LocalProxy) (puts : List (Nat × QueuedRelayMessage)) (t' : State Peer UInt8) :
    Prop where
  steps : Steps Step (Cond A own) t t'
  ok : ProxyOk l'
  far : Far l' t'
  remotePort : l'.remotePort = l.remotePort
  nearSame : NearSame t t'
  putsOk : ∀ x ∈ puts, ItemOk l.remotePort x.2 ∧ x.2.kind ≠ .newConnection
  queue : l'.pending = l.pending ∧ t'.down = t.down ∨
    ∃ m x, l.pending = m :: l'.pending ∧ t.down = tagged (x, m) :: t'.down
  up : l.phase ≠ .closing ∧ t'.up = t.up ++ puts.map tagged ∧ t'.late = t.late ∨
    l.phase = .closing ∧ (l'.phase = .closing ∨ l'.phase = .done) ∧ t'.up = t.up ∧
      t'.late = t.late ++ puts.map tagged

theorem LocalProxy.Inv.goto (hI : l.Inv) (phase : LocalPhase) (wakeupPending : Bool) :
    ({ l with phase, wakeupPending } : LocalProxy).Inv := { hI with }

theorem Far.goto (hF : Far l t) (phase : LocalPhase) (wakeupPending : Bool) :
    Far { l with phase, wakeupPending } t := { hF with }

theorem FarMoves.toStep (h : FarMoves A own t l l' puts t.down t') (hp : l.phase ≠ .closing)
    (hlost : l.lost = none) {phase : LocalPhase} {wakeupPending : Bool}
    (hr : (∀ e, phase ≠ .crashed e) → l'.Registered)
    (hready : ∀ events, phase = .dispatch events → l'.Ready events) :
    FarStepMoves A own t l { l' with phase, wakeupPending } puts t' where
  steps := h.steps
  ok := ⟨h.inv.goto .., hr, fun he => hready _ he, fun hne => absurd (h.lost.trans hlost) hne⟩
  far := h.far.goto ..
  remotePort := h.remotePort
  nearSame := h.nearSame
  putsOk := h.putsOk
  queue := .inl ⟨congrArg₂ (fun lost toLocal => Option.toList lost ++ toLocal) h.lost h.toLocal,
    h.down⟩
  up := .inl ⟨hp, h.up, h.late⟩

variable (A own) in
theorem handleItem_moves {n : Nat} {m : QueuedRelayMessage} (io : LocalProxy.ConnectIO)
    {down : List (Nat × Msg Peer UInt8)} (hI : l.Inv) (hr : l.Registered) (hF : Far l t)
    (hd : t.down = tagged (n, m) :: down) (hlate : t.Hears) (hm : ItemOk l.remotePort m)
    (hkey : m.kind = .newConnection → n = t.announced ∧ t.key n = m.peer)
    (hs : m.kind = .newConnection → ∃ fd, io.socket = .ok fd) :
    ∃ t', FarMoves A own t l (l.handleItem n m io).state (l.handleItem n m io).puts down t' ∧
      ((l.handleItem n m io).raised = none → (l.handleItem n m io).state.Registered) := by
  unfold LocalProxy.handleItem
  cases hk : m.kind with
  | newConnection =>
    obtain ⟨fd, hs⟩ := hs hk
    exact newConnection_moves A own hI hF hd hlate hm hs hr hk (hkey hk)
  | message => exact message_moves A own hI hF hd hlate hm hr hk
  | closeConnection =>
    obtain ⟨t', hmoves, hreg⟩ := cleanupSocket_moves A own hI hF hd hlate hr hk
    exact ⟨t', hmoves, fun _ => hreg⟩

theorem afterItem_moves {n left : Nat} {m : QueuedRelayMessage} {toLocal : List QueuedRelayMessage}
    {down : List (Nat × Msg Peer UInt8)} {out : Outcome LocalProxy} (hp : l.phase ≠ .closing)
    (hlost : l.lost = none) (hl : l.toLocal = m :: toLocal) (hd : t.down = tagged (n, m) :: down)
    (h : FarMoves A own t { l with toLocal } out.state out.puts down t')
    (hr : out.raised = none → out.state.Registered) :
    FarStepMoves A own t l (LocalProxy.after out (.batch left)) out.puts t' where
  steps := h.steps
  ok := by
    refine ⟨h.inv.goto _ out.state.wakeupPending, fun hcrash => ?_, fun he => ?_,
      fun hne => absurd (h.lost.trans hlost) hne⟩
    · cases hraise : out.raised with
      | none => exact hr hraise
      | some e => exact absurd (by simp [LocalProxy.after, hraise]) (hcrash e)
    · simp only [LocalProxy.after] at he
      split at he <;> cases he
  far := h.far.goto _ out.state.wakeupPending
  remotePort := h.remotePort
  nearSame := h.nearSame
  putsOk := h.putsOk
  queue := by
    have hlost' : (LocalProxy.after out (.batch left)).lost = none := h.lost.trans hlost
    have hto : (LocalProxy.after out (.batch left)).toLocal = toLocal := h.toLocal
    refine .inr ⟨m, n, ?_, by rw [hd, h.down]⟩
    rw [LocalProxy.pending_eq hlost, LocalProxy.pending_eq hlost', hl, hto]
  up := .inl ⟨hp, h.up, h.late⟩

/-- A thread that gets no socket for a new connection has ended, and handles no item any more. -/
theorem lostItem_moves {left : Nat} {m : QueuedRelayMessage} {toLocal : List QueuedRelayMessage}
    {e : PyError} (hok : ProxyOk l) (hF : Far l t) (hp : l.phase = .batch (left + 1))
    (hl : l.toLocal = m :: toLocal) :
    ∃ t', FarStepMoves A own t l { l with toLocal, lost := some m, phase := .crashed e } [] t' := by
  have hlost := hok.lost_eq_none (by simp [hp])
  refine ⟨_, .single (a := .farDeaf) trivial .farDeaf,
    ⟨{ hok.inv with }, fun hcrash => absurd rfl (hcrash e), nofun, fun _ => ⟨e, rfl⟩⟩,
    { hF with deaf := by simp }, rfl, by constructor <;> rfl, by simp, .inl ⟨?_, rfl⟩,
    .inl ⟨by simp [hp], by simp, rfl⟩⟩
  rw [LocalProxy.pending_eq hlost, hl]
  rfl

theorem drop_moves {addr : Peer} {n : Nat} (hok : ProxyOk l) (hF : Far l t)
    (hp : l.phase = .closing) (hl : l.connections.lookup addr = some n) :
    ∃ t', FarStepMoves A own t l (l.removed addr n)
      [(n, ⟨.closeConnection, addr.1, addr.2, [], (l.conns n).relayId⟩)] t' := by
  have hr := hok.registered (by simp [hp])
  have ht := (hF.farTab addr).trans hl
  obtain ⟨hn, ha⟩ := hok.inv.entry hl
  obtain ⟨hport, hrelay⟩ := hok.inv.conn hn
  refine ⟨_, .single (a := .farDrop addr) trivial (.farDrop ht),
    ⟨hok.inv.removed, fun _ => hr.removed hok.inv hl, fun he => ?_, hok.lost⟩, ?_, rfl,
    by constructor <;> rfl, ?_, .inl ⟨rfl, rfl⟩, .inr ⟨hp, .inl hp, rfl, ?_⟩⟩
  · exact nomatch hp.symm.trans he
  · exact {
      key := fun hx => by rw [LocalProxy.removed_addr]; exact hF.key hx
      ends := by rw [LocalProxy.ends_removed]; exact hF.ends
      farOpen := fun y => by
        rw [LocalProxy.removed_isOpen]
        simp only [Function.update_apply]
        split
        · rename_i h
          simp [h]
        · rename_i h
          simp [hF.farOpen, h, LocalProxy.removed]
      refused := fun y => by rw [LocalProxy.removed_refused]; exact hF.refused y
      farTab := fun k => by
        rw [LocalProxy.removed, Dict.lookup_erase]
        simp only [Function.update_apply, hF.farTab]
      deaf := hF.deaf }
  · simp only [List.mem_singleton]
    rintro _ rfl
    exact ⟨.close (ha ▸ hport) hrelay, by simp⟩
  · simp [tagged, msgOf, QueuedRelayMessage.peer]

theorem LocalProxy.Inv.ready_of_selectable {events : List (LocalKey × Mask)} (hI : l.Inv)
    (h : l.selectable events) : l.Ready events := by
  simp only [LocalProxy.selectable, Bool.and_eq_true, List.all_eq_true, decide_eq_true_eq] at h
  refine ⟨h.1, fun n mask hm => ?_⟩
  obtain ⟨hopen, hany⟩ : (l.conns n).sck.isOpen = true ∧ _ := by simpa using h.2 _ hm
  obtain ⟨⟨k, registered⟩, hk, hkn⟩ := (Option.any_eq_true ..).mp hany
  obtain rfl : k = n := by simp at hkn; exact hkn.1
  exact ⟨hI.registered hk, hopen⟩

theorem proxy_step_moves {close : Bool} {a : LocalProxy.LocalAction} (hok : ProxyOk l)
    (hF : Far l t) (hlate : l.phase ≠ .closing → t.late = [])
    (hdown : ∀ n io m rest, a = .item n io → l.toLocal = m :: rest →
      ItemOk l.remotePort m ∧ (m.kind = .newConnection → n = t.announced ∧ t.key n = m.peer) ∧
        ∃ down, t.down = tagged (n, m) :: down)
    (h : l.step close a = some (l', puts)) : ∃ t', FarStepMoves A own t l l' puts t' := by
  have hI := hok.inv
  have hidle : FarMoves A own t l l [] t.down t := .refl hI hF
  cases LocalProxy.step_moves h with
  | begins hp =>
    refine ⟨t, hidle.toStep (by simp [hp]) (hok.lost_eq_none (by simp [hp]))
      (fun _ => hok.registered (by simp [hp])) ?_⟩
    intro events he
    split at he <;> cases he
  | @item left m rest n io hp hl =>
    have hlost := hok.lost_eq_none (by simp [hp])
    by_cases hs : m.kind = .newConnection → ∃ fd, io.socket = .ok fd
    · obtain ⟨hm, hkey, down, hd⟩ := hdown n io m rest rfl hl
      have hhears : t.Hears := ⟨hlate (by simp [hp]), fun hdeaf => hF.deaf.mp hdeaf hlost⟩
      obtain ⟨t', hmoves, hreg⟩ := handleItem_moves A own
        (l := { l with toLocal := rest }) io { hI with } (hok.registered (by simp [hp]))
        { hF with } hd hhears hm hkey hs
      exact ⟨t', afterItem_moves (by simp [hp]) hlost hl hd hmoves hreg⟩
    · obtain ⟨hk, hno⟩ := Classical.not_imp.mp hs
      obtain ⟨e, he⟩ : ∃ e, io.socket = .error e := by
        cases he : io.socket with
        | ok fd => exact absurd ⟨fd, he⟩ hno
        | error e => exact ⟨e, rfl⟩
      simp only [LocalProxy.handleItem, hk, LocalProxy.newConnection_lost he]
      exact lostItem_moves hok hF hp hl
  | selects hp hsel =>
    refine ⟨t, hidle.toStep (by simp [hp]) (hok.lost_eq_none (by simp [hp]))
      (fun _ => hok.registered (by simp [hp])) ?_⟩
    intro _ he
    cases he
    exact hI.ready_of_selectable hsel
  | @io n mask events io hp hio =>
    have hready := hok.ready hp
    have hn := hready.2 n mask List.mem_cons_self
    obtain ⟨t', hmoves, hf⟩ := handleIoEvent_moves A own hI hF hn.1 hn.2 mask io (by simp_all)
    refine ⟨t', hmoves.toStep (by simp [hp]) (hok.lost_eq_none (by simp [hp]))
      (fun hcrash => ?_) (fun _ he => ?_)⟩
    · cases hraise : (l.handleIoEvent n mask io).raised with
      | none => exact (hok.registered (by simp [hp])).frame (hf hraise)
      | some e => exact absurd (by simp [hraise]) (hcrash e)
    · split at he <;> cases he
      exact hready.tail (hf ‹_›)
  | wakeupRead hp =>
    refine ⟨t, hidle.toStep (by simp [hp]) (hok.lost_eq_none (by simp [hp]))
      (fun _ => hok.registered (by simp [hp])) ?_⟩
    intro _ he
    cases he
    have := hok.ready hp
    exact ⟨(List.nodup_cons.mp this.1).2,
      fun n mask hm => this.2 n mask (List.mem_cons_of_mem _ hm)⟩
  | @drops addr n hp ha hn =>
    obtain ⟨k, hl⟩ := Dict.first?_mem ha
    obtain rfl : k = n := by rw [← hn, hl, Option.getD_some]
    rw [LocalProxy.cleanupSocket_eq (hok.registered (by simp [hp])) hl]
    exact drop_moves hok hF hp hl
  | dropFails hp ha hraised =>
    obtain ⟨n, hl⟩ := Dict.first?_mem ha
    rw [LocalProxy.cleanupSocket_eq (hok.registered (by simp [hp])) hl] at hraised
    cases hraised
  | ends hp =>
    exact ⟨t, .refl,
      ⟨hI.goto _ l.wakeupPending, fun _ => hok.registered (by simp [hp]), nofun,
        fun hne => absurd (hok.lost_eq_none (by simp [hp])) hne⟩,
      hF.goto _ l.wakeupPending, rfl, .refl t, by simp, .inl ⟨rfl, rfl⟩,
      .inr ⟨hp, .inr rfl, rfl, by simp⟩⟩
  | bounded hp | emptied hp | dispatched hp =>
    exact ⟨t, hidle.toStep (by simp [hp]) (hok.lost_eq_none (by simp [hp]))
      (fun _ => hok.registered (by simp [hp])) nofun⟩

end
end PortPort
