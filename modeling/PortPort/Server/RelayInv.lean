import PortPort.Lib.Tunnel
import PortPort.Server.Relay

/-! # What the relay's table, selector and sockets say about each other

The invariant of the relay thread, what each handler does when it holds, and that every step keeps
it. The part under `own` needs that `accept` never returns an address that is still in the
table. -/

namespace PortPort
open Function (update)

namespace Sock

@[simp] theorem recv_received (s : Sock) (data : Bytes) :
    (s.recv data).received = s.received ++ data := rfl
@[simp] theorem recv_sent (s : Sock) (data : Bytes) : (s.recv data).sent = s.sent := rfl
@[simp] theorem recv_isOpen (s : Sock) (data : Bytes) : (s.recv data).isOpen = s.isOpen := rfl
@[simp] theorem send_received (s : Sock) (data : Bytes) : (s.send data).received = s.received := rfl
@[simp] theorem send_sent (s : Sock) (data : Bytes) : (s.send data).sent = s.sent ++ data := rfl
@[simp] theorem send_isOpen (s : Sock) (data : Bytes) : (s.send data).isOpen = s.isOpen := rfl
@[simp] theorem close_received (s : Sock) : s.close.received = s.received := rfl
@[simp] theorem close_sent (s : Sock) : s.close.sent = s.sent := rfl
@[simp] theorem close_isOpen (s : Sock) : s.close.isOpen = false := by simp [close, isOpen]

end Sock

namespace Relay

/-- The relay's ends of the proxied connections. -/
def ends (r : Relay) (n : Nat) : Tunnel.End UInt8 where
  received := (r.conns n).sck.received
  sent := (r.conns n).sck.sent
  pend := (r.conns n).sendq

structure Inv (own : Prop) (r : Relay) : Prop where
  entry : r.connectionTable.lookup k = some n →
    n < r.nconns ∧ (r.conns n).peer = k ∧ (r.selector n).isSome ∧ (r.conns n).sck.isOpen
  ports : n < r.nconns → 0 ≤ (r.conns n).peer.2 ∧ (r.conns n).peer.2 < 65536
  registered : (r.selector n).isSome → n < r.nconns
  dispatch : r.phase = .dispatch events → (.conn n, mask) ∈ events → n < r.nconns
  /-- a socket is open only while the table has its connection -/
  own : own → n < r.nconns → (r.conns n).sck.isOpen →
    r.connectionTable.lookup (r.conns n).peer = some n

/-- `r'` differs from `r` in nothing but the bytes of the connections and the events for which
registered sockets are registered. -/
structure Frame (r r' : Relay) : Prop where
  phase : r'.phase = r.phase
  identifyingPort : r'.identifyingPort = r.identifyingPort
  sck : r'.sck = r.sck
  connectionTable : r'.connectionTable = r.connectionTable
  nconns : r'.nconns = r.nconns
  outbound : r'.outbound = r.outbound
  atomicClose : r'.atomicClose = r.atomicClose
  activeConnections : r'.activeConnections = r.activeConnections
  peer n : (r'.conns n).peer = (r.conns n).peer
  closes n : (r'.conns n).sck.closes = (r.conns n).sck.closes
  selector n : (r'.selector n).isSome = (r.selector n).isSome

namespace Frame

theorem refl (r : Relay) : Frame r r := by constructor <;> intros <;> rfl

theorem trans {r r' r'' : Relay} (h : Frame r r') (h' : Frame r' r'') : Frame r r'' where
  phase := h'.phase.trans h.phase
  identifyingPort := h'.identifyingPort.trans h.identifyingPort
  sck := h'.sck.trans h.sck
  connectionTable := h'.connectionTable.trans h.connectionTable
  nconns := h'.nconns.trans h.nconns
  outbound := h'.outbound.trans h.outbound
  atomicClose := h'.atomicClose.trans h.atomicClose
  activeConnections := h'.activeConnections.trans h.activeConnections
  peer n := (h'.peer n).trans (h.peer n)
  closes n := (h'.closes n).trans (h.closes n)
  selector n := (h'.selector n).trans (h.selector n)

theorem isOpen {r r' : Relay} (h : Frame r r') (n : Nat) :
    (r'.conns n).sck.isOpen = (r.conns n).sck.isOpen := by
  simp [Sock.isOpen, h.closes]

theorem setConn {r : Relay} {n : Nat} {c : RelayConnection} (hp : c.peer = (r.conns n).peer)
    (hc : c.sck.closes = (r.conns n).sck.closes) : Frame r (r.setConn n c) := by
  constructor <;> try intros; rfl
  all_goals
    intro m
    simp only [Relay.setConn, Function.update_apply]
    split
    · rename_i h
      subst h
      assumption
    · rfl

theorem modify {r : Relay} {n : Nat} (events : Mask) (h : (r.selector n).isSome) :
    ∃ r', r.modify n events = some r' ∧ Frame r r' ∧ r'.conns = r.conns := by
  refine ⟨_, if_pos h, ?_, rfl⟩
  constructor <;> try intros; rfl
  intro m
  simp only [Function.update_apply]
  split
  · rename_i hm
    simp [hm, h]
  · rfl

end Frame

theorem Inv.frame {own : Prop} {r r' : Relay} (h : Inv own r) (hf : Frame r r') : Inv own r' where
  entry := by
    intro k n hl
    rw [hf.connectionTable] at hl
    rw [hf.nconns, hf.peer, hf.selector, hf.isOpen]
    exact h.entry hl
  ports := by
    intro n hn
    rw [hf.peer]
    exact h.ports (hf.nconns ▸ hn)
  registered := by
    intro n hn
    rw [hf.selector] at hn
    exact hf.nconns ▸ h.registered hn
  dispatch := by
    intro events n mask hp hm
    exact hf.nconns ▸ h.dispatch (hf.phase ▸ hp) hm
  own := by
    intro n ho hn
    rw [hf.isOpen, hf.peer, hf.connectionTable]
    exact h.own ho (hf.nconns ▸ hn)

/-! ## The handlers -/

theorem Inv.accept {own : Prop} {r : Relay} {addr : Peer} (h : Inv own r)
    (hp : 0 ≤ addr.2 ∧ addr.2 < 65536) (hfresh : own → r.connectionTable.lookup addr = none) :
    Inv own (r.acceptInboundConnection addr).state := by
  have hconn {m : Nat} (hm : m < r.nconns) :
      (r.acceptInboundConnection addr).state.conns m = r.conns m :=
    Function.update_of_ne (Nat.ne_of_lt hm) ..
  have hnew : (r.acceptInboundConnection addr).state.conns r.nconns = { peer := addr } :=
    Function.update_self ..
  have hsel {m : Nat} (hm : m < r.nconns) :
      (r.acceptInboundConnection addr).state.selector m = r.selector m :=
    Function.update_of_ne (Nat.ne_of_lt hm) ..
  have htab (k : Peer) : (r.acceptInboundConnection addr).state.connectionTable.lookup k =
      if k = addr then some r.nconns else r.connectionTable.lookup k := Dict.lookup_set ..
  have hlt {m : Nat} (hm : m < r.nconns + 1) : m = r.nconns ∨ m < r.nconns := by omega
  constructor
  case entry =>
    intro k n hl
    rw [htab] at hl
    split at hl
    · obtain rfl := Option.some.inj hl
      subst k
      exact ⟨Nat.lt_succ_self _, by rw [hnew], by simp [acceptInboundConnection], by rw [hnew]; rfl⟩
    · obtain ⟨hn, hr⟩ := h.entry hl
      rw [hconn hn, hsel hn]
      exact ⟨Nat.lt_succ_of_lt hn, hr⟩
  case ports =>
    intro n hn
    rcases hlt hn with rfl | hn
    · rw [hnew]
      exact hp
    · rw [hconn hn]
      exact h.ports hn
  case registered =>
    intro n hn
    by_cases hm : n = r.nconns
    · exact hm ▸ Nat.lt_succ_self _
    · exact Nat.lt_succ_of_lt (h.registered (by simpa [acceptInboundConnection, hm] using hn))
  case dispatch =>
    intro events n mask hph hm
    exact Nat.lt_succ_of_lt (h.dispatch hph hm)
  case own =>
    intro n ho hn hopen
    rw [htab]
    rcases hlt hn with rfl | hn
    · rw [hnew, if_pos rfl]
    · rw [hconn hn] at hopen ⊢
      have hl := h.own ho hn hopen
      rw [if_neg, hl]
      intro he
      rw [he, hfresh ho] at hl
      cases hl

/-- What `clean_up_connection` leaves behind. -/
def removed (r : Relay) (addr : Peer) (n : Nat) : Relay :=
  { r with
    connectionTable := r.connectionTable.erase addr
    selector := update r.selector n none
    conns := update r.conns n { r.conns n with sck := (r.conns n).sck.close }
    activeConnections := r.activeConnections - 1 }

/-- The frame that tells the client about the end of a connection. -/
def closeMsg (r : Relay) (addr : Peer) : QueuedRelayMessage :=
  ⟨.closeConnection, addr.1, addr.2, [], r.identifyingPort⟩

theorem cleanUpConnection_eq {own : Prop} {r : Relay} {addr : Peer} {n : Nat} (hI : Inv own r)
    (hl : r.connectionTable.lookup addr = some n) :
    r.cleanUpConnection addr = { state := r.removed addr n, puts := [(n, r.closeMsg addr)] } := by
  have hs := (hI.entry hl).2.2.1
  simp [cleanUpConnection, hl, unregister, hs, removed, closeMsg, setConn]

@[simp] theorem removed_peer (r : Relay) (addr : Peer) (n m : Nat) :
    ((r.removed addr n).conns m).peer = (r.conns m).peer := by
  simp only [removed, Function.update_apply]
  split
  · rename_i h
    rw [h]
  · rfl

@[simp] theorem ends_removed (r : Relay) (addr : Peer) (n : Nat) :
    (r.removed addr n).ends = r.ends := by
  funext m
  simp only [ends, removed, Function.update_apply]
  split
  · rename_i h
    simp [h]
  · rfl

theorem Inv.removed {own : Prop} {r : Relay} {addr : Peer} {n : Nat} (h : Inv own r)
    (hl : r.connectionTable.lookup addr = some n) : Inv own (r.removed addr n) where
  entry := by
    intro k m hk
    simp only [Relay.removed, Dict.lookup_erase] at hk
    split at hk
    · cases hk
    · have hm := h.entry hk
      have hne : m ≠ n := by
        rintro rfl
        exact ‹¬ k = addr› (hm.2.1.symm.trans (h.entry hl).2.1)
      simpa [Relay.removed, hne] using hm
  ports := by
    intro m hm
    rw [removed_peer]
    exact h.ports hm
  registered := by
    intro m hm
    by_cases hmn : m = n
    · simp [Relay.removed, hmn] at hm
    · exact h.registered (by simpa [Relay.removed, hmn] using hm)
  dispatch := h.dispatch
  own := by
    intro m ho hlt hopen
    by_cases hmn : m = n
    · simp [Relay.removed, hmn] at hopen
    · have hm := h.own ho hlt (by simpa [Relay.removed, hmn] using hopen)
      have hne : (r.conns m).peer ≠ addr := by
        intro he
        rw [he, hl] at hm
        exact hmn (Option.some.inj hm).symm
      have hc : (r.removed addr n).conns m = r.conns m := Function.update_of_ne hmn ..
      rw [hc]
      exact (Dict.lookup_erase ..).trans ((if_neg hne).trans hm)

/-- The write part of `handle_socket` behind a `send` that returned. -/
theorem handleWrite_ok {own : Prop} {r : Relay} (sock : Nat) {con : Nat} {addr : Peer} (len : Nat)
    (hI : Inv own r) (hl : r.connectionTable.lookup addr = some con) :
    ∃ r', r.handleWrite sock con addr (.ok len) = .inl r' ∧ Frame r r' ∧
      r'.ends = Tunnel.End.flush r.ends sock con len := by
  let s := r.conns sock
  let r₁ := r.setConn sock { s with sck := s.sck.send ((r.conns con).sendq.take len) }
  let c := r₁.conns con
  let sendq := c.sendq.drop len
  let r₂ := r₁.setConn con { c with sendq }
  have h₁ : Frame r r₁ := .setConn rfl rfl
  have h₁₂ : Frame r₁ r₂ := .setConn rfl rfl
  have h₂ := h₁.trans h₁₂
  have hends : r₂.ends = Tunnel.End.flush r.ends sock con len := by
    funext m
    simp only [r₂, c, r₁, s, sendq, ends, setConn, Tunnel.End.flush, Function.update_apply]
    split <;> split <;> simp_all
  by_cases hq : sendq = []
  · let r₃ := r₂.setConn con { c with sendq, writeEnabled := false }
    have h₃ : Frame r₂ r₃ :=
      .setConn (by simp [r₂, setConn]) (by simp [r₂, setConn])
    have hs : (r₃.selector con).isSome := (hI.entry hl).2.2.1
    obtain ⟨r', hm, hf, hc⟩ := Frame.modify .r hs
    refine ⟨r', (if_pos hq).trans (by rw [hm]), (h₂.trans h₃).trans hf, ?_⟩
    rw [← hends]
    funext m
    simp only [ends, hc, r₃, r₂, setConn, Function.update_apply]
    split <;> rfl
  · exact ⟨r₂, if_neg hq, h₂, hends⟩

end Relay
end PortPort
