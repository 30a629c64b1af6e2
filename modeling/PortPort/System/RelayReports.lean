import PortPort.Lib.Sessions
import PortPort.Server.RelayResources
import PortPort.System.Items

/-! # What a relay reports about its connections

The messages that a relay puts on `inbound_data` about one address are a stream of sessions, and a
session is open while the address is in the table. -/

namespace PortPort
open Sessions (Mark run)
open Relay (RelayAction SocketIO)

def markOf : RelayMessageTypes → Mark
  | .newConnection => .start
  | .message => .item
  | .closeConnection => .stop

/-- The marks of the messages about the address. -/
def marks (addr : Peer) (qs : List QueuedRelayMessage) : List Mark :=
  qs.filterMap fun q => if q.peer = addr then some (markOf q.kind) else none

namespace Relay

/-- The relay has put these messages, and its table has followed them. -/
structure Reported (r : Relay) (puts : List (Nat × QueuedRelayMessage)) (r' : Relay) : Prop where
  port : r'.identifyingPort = r.identifyingPort
  items : ∀ x ∈ puts, ItemOk r.identifyingPort x.2
  marks addr : run (r.connectionTable.lookup addr).isSome (marks addr (puts.map Prod.snd)) =
    some (r'.connectionTable.lookup addr).isSome

section
variable {own : Prop} {r r' r'' : Relay} {puts : List (Nat × QueuedRelayMessage)} {addr : Peer}
  {n sock con : Nat} {mask : Mask} {io : SocketIO}

theorem Reported.of_eq (hp : r'.identifyingPort = r.identifyingPort)
    (ht : r'.connectionTable = r.connectionTable) : Reported r [] r' :=
  ⟨hp, nofun, fun _ => by rw [ht]; rfl⟩

theorem Reported.congr (h : Reported r puts r') (hp : r''.identifyingPort = r'.identifyingPort)
    (ht : r''.connectionTable = r'.connectionTable) : Reported r puts r'' :=
  ⟨hp.trans h.port, h.items, fun addr => by rw [ht, h.marks]⟩

/-- The message is preceded by a change that the table does not show. -/
theorem Reported.of_frame (hf : Frame r r') (h : Reported r' puts r'') : Reported r puts r'' where
  port := h.port.trans hf.identifyingPort
  items x hx := hf.identifyingPort ▸ h.items x hx
  marks addr := hf.connectionTable ▸ h.marks addr

/-- One message, about `addr`. -/
theorem Reported.single {q : QueuedRelayMessage} (hp : r'.identifyingPort = r.identifyingPort)
    (hq : ItemOk r.identifyingPort q) (ht : ∀ k ≠ q.peer, r'.connectionTable.lookup k =
      r.connectionTable.lookup k)
    (hm : run (r.connectionTable.lookup q.peer).isSome [markOf q.kind] =
      some (r'.connectionTable.lookup q.peer).isSome) : Reported r [(n, q)] r' where
  port := hp
  items := by
    rintro x hx
    rw [List.mem_singleton.mp hx]
    exact hq
  marks k := by
    by_cases hk : q.peer = k
    · subst hk
      simpa [PortPort.marks] using hm
    · rw [ht k (Ne.symm hk)]
      simp [PortPort.marks, hk, run]

theorem acceptInboundConnection_reported (hfresh : r.connectionTable.lookup addr = none)
    (hp : 0 ≤ addr.2 ∧ addr.2 < 65536) :
    Reported r (r.acceptInboundConnection addr).puts (r.acceptInboundConnection addr).state := by
  have htab (k : Peer) : (r.acceptInboundConnection addr).state.connectionTable.lookup k =
      if k = addr then some r.nconns else r.connectionTable.lookup k := Dict.lookup_set ..
  refine .single rfl ⟨hp, rfl, nofun, fun _ => rfl⟩ (fun k hk => ?_) ?_
  · exact (htab k).trans (if_neg hk)
  · rw [htab]
    simp [QueuedRelayMessage.peer, hfresh, markOf, run]

theorem Inv.peer_port (hI : r.Inv own) (hl : r.connectionTable.lookup addr = some n) :
    0 ≤ addr.2 ∧ addr.2 < 65536 := by
  obtain ⟨hn, rfl, -⟩ := hI.entry hl
  exact hI.ports hn

theorem cleanUpConnection_reported (hI : r.Inv own)
    (hl : r.connectionTable.lookup addr = some n) :
    Reported r (r.cleanUpConnection addr).puts (r.cleanUpConnection addr).state := by
  rw [cleanUpConnection_eq hI hl]
  have htab (k : Peer) : (r.removed addr n).connectionTable.lookup k =
      if k = addr then none else r.connectionTable.lookup k := Dict.lookup_erase ..
  refine .single rfl ⟨hI.peer_port hl, rfl, nofun, fun _ => rfl⟩ (fun k hk => ?_) ?_
  · exact (htab k).trans (if_neg hk)
  · rw [htab]
    simp [closeMsg, QueuedRelayMessage.peer, hl, markOf, run]

theorem handleRead_reported {recv : Except OSError Bytes} (hI : r.Inv own)
    (hl : r.connectionTable.lookup addr = some con) (hrecv : recvAllowed recv) :
    Reported r (r.handleRead sock con addr recv).puts (r.handleRead sock con addr recv).state := by
  cases recv with
  | ok data =>
    let c := { r.conns sock with sck := (r.conns sock).sck.recv data }
    have hf : Frame r (r.setConn sock c) := .setConn rfl rfl
    unfold handleRead
    simp only
    split
    · exact .of_frame hf (cleanUpConnection_reported (hI.frame hf) hl)
    · rename_i hd
      refine .single rfl ⟨hI.peer_port hl, rfl, fun _ => ⟨hd, by simpa [recvAllowed] using hrecv⟩,
        fun h => absurd rfl h⟩ (fun _ _ => rfl) ?_
      have hpeer : r.connectionTable.lookup (addr.1, addr.2) = some con := hl
      simp [QueuedRelayMessage.peer, hpeer, setConn, markOf, run]
  | error e =>
    cases e with
    | connectionReset | brokenPipe => exact cleanUpConnection_reported hI hl
    | _ => exact .of_eq rfl rfl

theorem handleSocket_reported (hI : r.Inv own) (hio : r.ioAllowed sock io) :
    Reported r (r.handleSocket sock mask io).puts (r.handleSocket sock mask io).state := by
  simp only [ioAllowed, Bool.and_eq_true] at hio
  unfold handleSocket
  cases io.getpeername with
  | error e => exact .of_eq rfl rfl
  | ok _ =>
    cases hl : r.connectionTable.lookup (r.conns sock).peer with
    | none => simpa only [hl] using .of_eq rfl rfl
    | some con =>
      simp only [hl]
      have hread {r₁ : Relay} (hf : Frame r r₁) {out : Outcome Relay}
          (hout : out = if mask.read then r₁.handleRead sock con (r.conns sock).peer io.recv
            else { state := r₁ }) : Reported r out.puts out.state := by
        rw [hout]
        split
        · exact .of_frame hf
            (handleRead_reported (hI.frame hf) (hf.connectionTable ▸ hl) hio.2)
        · exact .of_eq hf.identifyingPort hf.connectionTable
      by_cases hw : (mask.write && (r.conns con).sendq ≠ [])
      · simp only [if_pos hw]
        cases io.send with
        | ok len =>
          rw [handleWrite_eq len (hI.entry hl).2.2.1]
          exact hread (flushed_frame len (hI.entry hl).2.2.1) rfl
        | error e =>
          cases e with
          | brokenPipe | connectionReset => exact cleanUpConnection_reported hI hl
          | blockingIo => exact hread (.refl r) rfl
          | _ => exact .of_eq rfl rfl
      · simp only [if_neg hw]
        exact hread (.refl r) rfl

theorem handleOutbound_reported {m : QueuedRelayMessage} (hI : r.Inv own) :
    Reported r (r.handleOutbound m).puts (r.handleOutbound m).state := by
  unfold handleOutbound
  cases hl : r.connectionTable.lookup m.peer with
  | none => exact .of_eq rfl rfl
  | some n =>
    simp only
    cases m.kind with
    | newConnection => exact .of_eq rfl rfl
    | closeConnection => exact cleanUpConnection_reported hI hl
    | message =>
      have hs : (r.selector n).isSome := (hI.entry hl).2.2.1
      simp only
      split
      · exact .of_eq rfl rfl
      · simp only [modify, setConn, hs, if_true]
        exact .of_eq rfl rfl

/-! ## The steps -/

theorem step_reported {closeReq : Bool} {a : RelayAction} (hI : r.Inv own)
    (hfresh : ∀ addr, a = .accept (.ok addr) → r.connectionTable.lookup addr = none)
    (h : r.step closeReq a = some (r', puts)) : Reported r puts r' := by
  have hcallback {out : Outcome Relay} (events : List (RelayKey × Mask))
      (h : Reported r out.puts out.state) : Reported r out.puts (afterCallback out events) := by
    unfold afterCallback
    split <;> exact h.congr rfl rfl
  cases step_moves h with
  | accepts _ hport =>
    exact hcallback _ (acceptInboundConnection_reported (hfresh _ rfl) hport)
  | io _ hio => exact hcallback _ (handleSocket_reported hI hio)
  | @handles m rest =>
    have hpop : Reported { r with outbound := rest } _ _ :=
      handleOutbound_reported (m := m) (r := { r with outbound := rest }) { hI with }
    have hpop : Reported r _ _ := ⟨hpop.port, hpop.items, hpop.marks⟩
    unfold afterOutbound
    split <;> exact hpop.congr rfl rfl
  | cleansUp _ ha =>
    obtain ⟨n, hl⟩ := Dict.first?_mem ha
    have hclean := cleanUpConnection_reported hI hl
    rw [cleanUpConnection_eq hI hl] at hclean ⊢
    exact hclean
  | _ => exact .of_eq rfl rfl

/-! ## Who may report -/

/-- Only a relay that listens has connections. -/
def Quiet (r : Relay) : Prop := r.sck ≠ .listening → ∀ k, r.connectionTable.lookup k = none

theorem step_silent {closeReq : Bool} {a : RelayAction} (hS : r.Staged) (hn : r.sck ≠ .listening)
    (h : r.step closeReq a = some (r', puts)) :
    puts = [] ∧ r'.connectionTable = r.connectionTable := by
  cases step_moves h with
  | listens | listenFails => exact ⟨rfl, rfl⟩
  | leaves hp | selects hp | accepts hp | acceptFails hp | io hp | wakeupRead hp | dispatched hp
  | drained hp | handles hp | cleansUp hp | closes hp =>
    simp only [Staged, hp] at hS
    exact absurd hS hn

theorem step_closed {closeReq : Bool} {a : RelayAction} (hS : r.Staged) (hc : r.sck = .closed) :
    r.step closeReq a = none := by
  unfold Relay.step
  split <;> rename_i hp <;> simp only [Staged, hp, hc] at hS <;> first | cases hS | rfl

theorem Quiet.step {closeReq : Bool} {a : RelayAction} (hI : r.Inv own) (hS : r.Staged)
    (h0 : r.Quiet) (h : r.step closeReq a = some (r', puts)) : r'.Quiet := by
  intro hn
  by_cases hsck : r.sck = .listening
  · have hstart : r.phase ≠ .start := by
      intro hp
      simp only [Staged, hp, hsck] at hS
      cases hS
    by_cases hp : r.phase = .closing
    · cases step_moves h with
      | cleansUp _ ha =>
        obtain ⟨n, hl⟩ := Dict.first?_mem ha
        rw [cleanUpConnection_eq hI hl] at hn
        exact absurd hsck hn
      | closes _ hnone => exact Dict.first?_eq_none hnone
      | listens hph | listenFails hph | leaves hph | selects hph | accepts hph | acceptFails hph
      | io hph | wakeupRead hph | dispatched hph | drained hph | handles hph =>
        cases hp.symm.trans hph
    · exact absurd (((step_change hI h).sck hstart hp).trans hsck) hn
  · rw [(step_silent hS hsck h).2]
    exact h0 hsck

end
end Relay
end PortPort
