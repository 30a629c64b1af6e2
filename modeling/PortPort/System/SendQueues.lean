import PortPort.Client.ConnMoves
import PortPort.Server.ConnMoves
import PortPort.System.Agreement

/-! # The send queues, told from the steps

Whether bytes wait for a socket can be told from what has happened: data taken for a connection
makes bytes due at its socket, and a `send` that accepts all that it is offered leaves none. -/

namespace PortPort

/-! ## Bytes that are due -/

/-- How many bytes `send` accepts: none where it raises. -/
def acceptedLen : Except OSError Nat → Nat
  | .ok len => len
  | .error _ => 0

/-- What a step says about one connection, noted. -/
def noted (due : Nat → Bool) : Option (Nat × Bool) → Nat → Bool
  | none => due
  | some (n, b) => Function.update due n b

/-- Bytes are due exactly at the sockets with bytes in their queue. -/
def Due (due : Nat → Bool) (sendq : Nat → Bytes) : Prop := ∀ n, due n = true ↔ sendq n ≠ []

theorem Due.eq_false {due : Nat → Bool} {sendq : Nat → Bytes} (h : Due due sendq) (n : Nat) :
    due n = false ↔ sendq n = [] := by
  rw [← Bool.not_eq_true, h n, not_not]

theorem Due.note {due : Nat → Bool} {sendq sendq' : Nat → Bytes} {n : Nat} {b : Bool}
    (h : Due due sendq) (hn : b = true ↔ sendq' n ≠ [])
    (hothers : ∀ k, k ≠ n → sendq' k = sendq k) : Due (noted due (some (n, b))) sendq' := by
  intro k
  by_cases hk : k = n
  · subst hk
    simpa [noted] using hn
  · rw [hothers k hk]
    simpa [noted, hk] using h k

/-- Data that is taken makes bytes due. -/
theorem Due.push {due : Nat → Bool} {sendq sendq' : Nat → Bytes} {n : Nat} {data : Bytes}
    (h : Due due sendq) (hdata : data ≠ [])
    (hpush : ∀ k, sendq' k = if k = n then sendq n ++ data else sendq k) :
    Due (noted due (some (n, true))) sendq' := by
  refine h.note ?_ fun k hk => ?_
  · simp [hpush, hdata]
  · rw [hpush, if_neg hk]

/-- A write part that accepts `len` bytes leaves none due exactly if it has been offered no more. -/
theorem Due.send {due : Nat → Bool} {sendq sendq' : Nat → Bytes} {n len : Nat} {writes : Bool}
    (h : Due due sendq)
    (hsend : ∀ k, sendq' k = if k = n ∧ writes = true then (sendq n).drop len else sendq k) :
    Due (noted due (if writes && (sendq n).length ≤ len then some (n, false) else none))
      sendq' := by
  split
  · rename_i hall
    obtain ⟨hw, hlen⟩ := (Bool.and_eq_true ..).mp hall
    refine h.note ?_ fun k hk => ?_
    · have hnone : (sendq n).drop len = [] := List.drop_eq_nil_iff.mpr (of_decide_eq_true hlen)
      simp [hsend, hw, hnone]
    · rw [hsend, if_neg fun hn => hk hn.1]
  · rename_i hpart
    intro k
    rw [hsend]
    split
    · rename_i hk
      obtain ⟨rfl, hw⟩ := hk
      have hlen : (sendq k).length > len := by simpa [hw] using hpart
      have hleft : (sendq k).drop len ≠ [] := fun he =>
        Nat.not_le_of_gt hlen (List.drop_eq_nil_iff.mp he)
      have hwaits : sendq k ≠ [] := fun he => hleft (by rw [he, List.drop_nil])
      exact (h k).trans (iff_of_true hwaits hleft)
    · exact h k

namespace LocalProxy
variable {l l' : LocalProxy}

/-- The bytes that wait for each socket. -/
def sendqs (l : LocalProxy) (n : Nat) : Bytes := (l.conns n).sendq

/-- `handle_io_event` comes to its write part. -/
def comesToWrite (mask : Mask) (recv : Except OSError Bytes) : Bool :=
  mask.write && (!mask.read || match recv with
    | .ok data => data ≠ []
    | .error e => e = .blockingIo)

/-- What a step says about the bytes due at a socket: a new one has none, data that is taken makes
some due, and a `send` that accepts all that it is offered leaves none. -/
def due (l : LocalProxy) : LocalAction → Option (Nat × Bool)
  | .item n io =>
    match l.toLocal with
    | [] => none
    | m :: _ =>
      match m.kind with
      | .newConnection => if io.socket.isOk then some (n, false) else none
      | .message => (l.connections.lookup m.peer).map fun k => (k, true)
      | .closeConnection => none
  | .io io =>
    match l.phase with
    | .dispatch ((.conn n, mask) :: _) =>
      if comesToWrite mask io.recv && (l.conns n).sendq.length ≤ acceptedLen io.send then
        some (n, false)
      else none
    | _ => none
  | _ => none

@[simp] theorem setConn_sendqs (n k : Nat) (c : ProxiedConnection) :
    (l.setConn n c).sendqs k = if k = n then c.sendq else l.sendqs k := by
  unfold sendqs setConn
  simp only [Function.update_apply]
  split
  · rfl
  · rfl

theorem sendqs_congr {l l' : LocalProxy} (h : l'.conns = l.conns) : l'.sendqs = l.sendqs := by
  unfold sendqs
  rw [h]

theorem setConn_self_sendqs (n k : Nat) {c : ProxiedConnection} (hc : c.sendq = (l.conns n).sendq) :
    (l.setConn n c).sendqs k = l.sendqs k := by
  rw [setConn_sendqs]
  split
  · rename_i hk
    rw [hk, hc]
    rfl
  · rfl

theorem cleanupSocket_sendqs (address : Peer) :
    (l.cleanupSocket address).state.sendqs = l.sendqs := by
  funext k
  unfold sendqs
  rcases cleanupSocket_conns (l := l) address k with hc | ⟨-, hc⟩
  · rw [hc]
  · rw [hc]

theorem handleWrite_sendqs (n k : Nat) (send : Except OSError Nat) :
    (l.handleWrite n send).state.sendqs k =
      if k = n then (l.sendqs n).drop (acceptedLen send) else l.sendqs k := by
  cases send with
  | ok len =>
    unfold handleWrite
    simp only
    split
    · split
      · change (LocalProxy.modify _ n .r).state.sendqs k = _
        rw [sendqs_congr (modify_conns ..), setConn_sendqs]
        rfl
      · change (LocalProxy.modify _ n .r).state.sendqs k = _
        rw [sendqs_congr (modify_conns ..), setConn_sendqs]
        rfl
    · exact setConn_sendqs ..
  | error e =>
    have hsame : l.sendqs k = if k = n then (l.sendqs n).drop 0 else l.sendqs k := by
      split
      · rename_i hk
        rw [hk]
        rfl
      · rfl
    have hstate : (l.handleWrite n (.error e)).state.sendqs k = l.sendqs k := by
      unfold handleWrite
      cases e with
      | connectionReset | brokenPipe => exact setConn_self_sendqs n k rfl
      | _ => rfl
    exact hstate.trans hsame

theorem handleIoEvent_sendqs (n k : Nat) (mask : Mask) (io : ConnIO) :
    (l.handleIoEvent n mask io).state.sendqs k =
      if k = n ∧ comesToWrite mask io.recv = true then
        (l.sendqs n).drop (acceptedLen io.send) else l.sendqs k := by
  -- the write part, behind a read part that has left the queues as they were
  have hwrite {l₁ : LocalProxy} (hl : ∀ k, l₁.sendqs k = l.sendqs k)
      (hc : comesToWrite mask io.recv = mask.write) :
      (if mask.write && (l₁.conns n).sendq ≠ [] then l₁.handleWrite n io.send
        else { state := l₁ } : Outcome LocalProxy).state.sendqs k =
        if k = n ∧ comesToWrite mask io.recv = true then
          (l.sendqs n).drop (acceptedLen io.send) else l.sendqs k := by
    rw [hc]
    by_cases hk : k = n
    · subst hk
      cases hm : mask.write with
      | false => simp [hl]
      | true =>
        by_cases hq : (l₁.conns k).sendq = []
        · have hq' : l.sendqs k = [] := (hl k).symm.trans hq
          simp [hq, hl, hq']
        · simp [hq, handleWrite_sendqs, hl]
    · split
      · simp [handleWrite_sendqs, hl, hk]
      · simp [hl, hk]
  unfold handleIoEvent
  simp only
  cases hm : mask.read with
  | false => exact hwrite (fun _ => rfl) (by simp [comesToWrite, hm])
  | true =>
    simp only [if_true]
    have hstays (hc : comesToWrite mask io.recv = false) : l.sendqs k =
        if k = n ∧ comesToWrite mask io.recv = true then
          (l.sendqs n).drop (acceptedLen io.send) else l.sendqs k := by
      simp [hc]
    cases hr : io.recv with
    | ok data =>
      rw [hr] at hwrite hstays
      simp only
      split
      · rename_i hd
        refine Eq.trans ?_ (hstays (by simp [comesToWrite, hm, hd]))
        exact setConn_self_sendqs n k rfl
      · rename_i hd
        exact hwrite (fun k => setConn_self_sendqs n k rfl) (by simp [comesToWrite, hm, hd])
    | error e =>
      rw [hr] at hwrite hstays
      cases e with
      | connectionReset | brokenPipe =>
        refine Eq.trans ?_ (hstays (by simp [comesToWrite, hm]))
        exact setConn_self_sendqs n k rfl
      | blockingIo => exact hwrite (fun _ => rfl) (by simp [comesToWrite, hm])
      | _ => exact hstays (by simp [comesToWrite, hm])

theorem newConnection_due {due : Nat → Bool} (h : Due due l.sendqs) (n : Nat)
    (m : QueuedRelayMessage) (io : ConnectIO) :
    Due (noted due (if io.socket.isOk then some (n, false) else none))
      (l.newConnection n m io).state.sendqs := by
  cases hfd : io.socket with
  | error e =>
    rw [newConnection_lost hfd]
    exact h
  | ok fd =>
    rw [newConnection_made hfd]
    refine h.note ?_ fun k hk => ?_
    · rcases enterConnection_conns (l := l) n n m fd io.connect with
        ⟨hne, -⟩ | ⟨-, refused, sck, -, hc⟩
      · exact absurd rfl hne
      · simp [sendqs, hc]
    · rcases enterConnection_conns (l := l) n k m fd io.connect with ⟨-, hc⟩ | ⟨he, -⟩
      · exact congrArg ProxiedConnection.sendq hc
      · exact absurd he hk

theorem message_due {due : Nat → Bool} (h : Due due l.sendqs) (n : Nat) {m : QueuedRelayMessage}
    (hdata : m.data ≠ []) :
    Due (noted due ((l.connections.lookup m.peer).map fun k => (k, true)))
      (l.message n m).state.sendqs := by
  unfold message
  cases hl : l.connections.lookup m.peer with
  | none => exact h
  | some k =>
    have hset := h.push hdata fun j => setConn_sendqs (l := l) k j { l.conns k with
      sendq := (l.conns k).sendq ++ m.data, writeEnabled := true }
    simp only [Option.map_some]
    split
    · exact hset
    · rw [sendqs_congr (modify_conns ..)]
      exact hset

theorem handleItem_due {due : Nat → Bool} (h : Due due l.sendqs) (n : Nat)
    {m : QueuedRelayMessage} (io : ConnectIO) (hdata : m.kind = .message → m.data ≠ []) :
    Due (noted due (match m.kind with
      | .newConnection => if io.socket.isOk then some (n, false) else none
      | .message => (l.connections.lookup m.peer).map fun k => (k, true)
      | .closeConnection => none)) (l.handleItem n m io).state.sendqs := by
  unfold handleItem
  cases hk : m.kind with
  | newConnection => exact newConnection_due h n m io
  | message => exact message_due h n (hdata hk)
  | closeConnection =>
    rw [cleanupSocket_sendqs]
    exact h

/-- Told from the steps, bytes are due exactly where bytes wait. -/
theorem step_due {close : Bool} {a : LocalAction} {puts : List (Nat × QueuedRelayMessage)}
    {due : Nat → Bool} (h : Due due l.sendqs)
    (hq : ∀ m rest, l.toLocal = m :: rest → m.kind = .message → m.data ≠ [])
    (hs : l.step close a = some (l', puts)) : Due (noted due (l.due a)) l'.sendqs := by
  cases step_moves hs with
  | @item left m rest n io hp hl =>
    simp only [LocalProxy.due, hl]
    exact handleItem_due (l := { l with toLocal := rest }) h n io (hq m rest hl)
  | @io n mask events io hp =>
    simp only [LocalProxy.due, hp]
    exact h.send fun k => handleIoEvent_sendqs n k mask io
  | drops | dropFails =>
    change Due due (l.cleanupSocket _).state.sendqs
    rw [cleanupSocket_sendqs]
    exact h
  | _ => exact h

end LocalProxy

namespace Relay
variable {r r' : Relay}

/-- The bytes that wait for each socket. -/
def sendqs (r : Relay) (n : Nat) : Bytes := (r.conns n).sendq

/-- The same of the relay; `handle_socket` writes before it reads, and to the socket from the queue
of the connection that the table has under its address. -/
def due (closeReq : Bool) (r : Relay) : RelayAction → Option (Nat × Bool)
  | .accept (.ok _) => some (r.nconns, false)
  | .io io =>
    match r.phase, io.getpeername with
    | .dispatch ((.conn sock, mask) :: _), .ok () =>
      match r.connectionTable.lookup (r.conns sock).peer with
      | some con =>
        if mask.write && (r.conns con).sendq.length ≤ acceptedLen io.send then some (con, false)
        else none
      | none => none
    | _, _ => none
  | .turn =>
    match r.phase, r.outbound with
    | .drain, m :: _ =>
      if !closeReq && !r.atomicClose && m.kind = .message then
        (r.connectionTable.lookup m.peer).map fun n => (n, true)
      else none
    | _, _ => none
  | _ => none

@[simp] theorem setConn_sendqs (n k : Nat) (c : RelayConnection) :
    (r.setConn n c).sendqs k = if k = n then c.sendq else r.sendqs k := by
  unfold sendqs setConn
  simp only [Function.update_apply]
  split
  · rfl
  · rfl

theorem sendqs_congr {r r' : Relay} (h : r'.conns = r.conns) : r'.sendqs = r.sendqs := by
  unfold sendqs
  rw [h]

theorem setConn_self_sendqs (n k : Nat) {c : RelayConnection} (hc : c.sendq = (r.conns n).sendq) :
    (r.setConn n c).sendqs k = r.sendqs k := by
  rw [setConn_sendqs]
  split
  · rename_i hk
    rw [hk, hc]
    rfl
  · rfl

theorem cleanUpConnection_sendqs (addr : Peer) :
    (r.cleanUpConnection addr).state.sendqs = r.sendqs := by
  funext k
  unfold sendqs
  rcases cleanUpConnection_conns (r := r) addr k with hc | ⟨-, hc⟩
  · rw [hc]
  · rw [hc]

theorem handleRead_sendqs (sock con : Nat) (addr : Peer) (recv : Except OSError Bytes) :
    (r.handleRead sock con addr recv).state.sendqs = r.sendqs := by
  unfold handleRead
  split
  · have hset (c : RelayConnection) (hc : c.sendq = (r.conns sock).sendq) :
        (r.setConn sock c).sendqs = r.sendqs := funext fun k => setConn_self_sendqs sock k hc
    simp only
    split
    · exact (cleanUpConnection_sendqs addr).trans (hset _ rfl)
    · exact hset _ rfl
  · exact cleanUpConnection_sendqs addr
  · exact cleanUpConnection_sendqs addr
  · rfl

theorem handleWrite_sendqs (sock con k : Nat) (addr : Peer) (send : Except OSError Nat) :
    ((r.handleWrite sock con addr send).elim id Outcome.state).sendqs k =
      if k = con then (r.sendqs con).drop (acceptedLen send) else r.sendqs k := by
  cases send with
  | ok len =>
    let r₁ := r.setConn sock { r.conns sock with
      sck := (r.conns sock).sck.send ((r.conns con).sendq.take len) }
    have h₁ (k : Nat) : r₁.sendqs k = r.sendqs k := setConn_self_sendqs sock k rfl
    let c := r₁.conns con
    let sendq := c.sendq.drop len
    let r₂ := r₁.setConn con { c with sendq }
    let r₃ := r₂.setConn con { c with sendq, writeEnabled := false }
    have hdrop : sendq = (r.sendqs con).drop len := congrArg (List.drop len) (h₁ con)
    have h₂ : r₂.sendqs k = if k = con then (r.sendqs con).drop len else r.sendqs k := by
      rw [setConn_sendqs, h₁, hdrop]
    have h₃ : r₃.sendqs k = if k = con then (r.sendqs con).drop len else r.sendqs k := by
      rw [setConn_sendqs, h₂, hdrop]
      split
      · rfl
      · rfl
    by_cases hq : sendq = []
    · cases hm : r₃.modify con .r with
      | some r' =>
        have hw : r.handleWrite sock con addr (.ok len) = .inl r' :=
          (if_pos hq).trans (by rw [hm])
        rw [hw]
        exact (congrFun (sendqs_congr (modify_conns hm)) k).trans h₃
      | none =>
        have hw : r.handleWrite sock con addr (.ok len) =
            .inr { state := r₃, raised := some .keyError } := (if_pos hq).trans (by rw [hm])
        rw [hw]
        exact h₃
    · have hw : r.handleWrite sock con addr (.ok len) = .inl r₂ := if_neg hq
      rw [hw]
      exact h₂
  | error e =>
    have hsame : r.sendqs k = if k = con then (r.sendqs con).drop 0 else r.sendqs k := by
      split
      · rename_i hk
        rw [hk]
        rfl
      · rfl
    cases e with
    | brokenPipe | connectionReset => exact (congrFun (cleanUpConnection_sendqs addr) k).trans hsame
    | _ => exact hsame

theorem handleSocket_sendqs {sock con : Nat} (k : Nat) {mask : Mask} {io : SocketIO}
    (hname : io.getpeername = .ok ())
    (hl : r.connectionTable.lookup (r.conns sock).peer = some con) :
    (r.handleSocket sock mask io).state.sendqs k =
      if k = con ∧ mask.write = true then (r.sendqs con).drop (acceptedLen io.send)
      else r.sendqs k := by
  let written : Relay ⊕ Outcome Relay :=
    if mask.write && (r.conns con).sendq ≠ [] then
      r.handleWrite sock con (r.conns sock).peer io.send
    else .inl r
  have hwritten : (written.elim id Outcome.state).sendqs k =
      if k = con ∧ mask.write = true then (r.sendqs con).drop (acceptedLen io.send)
      else r.sendqs k := by
    cases hm : mask.write with
    | false => simp [written, hm]
    | true =>
      by_cases hq : (r.conns con).sendq = []
      · have hq' : r.sendqs con = [] := hq
        by_cases hk : k = con
        · simp [written, hm, hq, hk, hq']
        · simp [written, hm, hq, hk]
      · have hw : written = r.handleWrite sock con (r.conns sock).peer io.send := by
          simp [written, hm, hq]
        rw [hw, handleWrite_sendqs]
        simp
  unfold handleSocket
  simp only [hname, hl]
  split
  · rename_i out hw
    rw [show written = .inr out from hw] at hwritten
    exact hwritten
  · rename_i r₁ hw
    rw [show written = .inl r₁ from hw] at hwritten
    refine Eq.trans ?_ hwritten
    split
    · exact congrFun (handleRead_sendqs ..) k
    · rfl

theorem handleOutbound_due {due : Nat → Bool} (h : Due due r.sendqs) {m : QueuedRelayMessage}
    (hdata : m.kind = .message → m.data ≠ []) :
    Due (noted due (if m.kind = .message then
      (r.connectionTable.lookup m.peer).map fun n => (n, true) else none))
      (r.handleOutbound m).state.sendqs := by
  unfold handleOutbound
  cases hl : r.connectionTable.lookup m.peer with
  | none =>
    simp only [Option.map_none, ite_self]
    exact h
  | some n =>
    cases hk : m.kind with
    | newConnection => exact h
    | closeConnection =>
      simp only [reduceCtorEq, if_false]
      rw [cleanUpConnection_sendqs]
      exact h
    | message =>
      have hset := h.push (hdata hk) fun k => setConn_sendqs (r := r) n k { r.conns n with
        sendq := (r.conns n).sendq ++ m.data, writeEnabled := true }
      simp only [Option.map_some, if_true]
      split
      · exact hset
      · split
        · rename_i r₁ hr₁
          rw [sendqs_congr (modify_conns hr₁)]
          exact hset
        · exact hset

/-- Told from the steps, bytes are due exactly where bytes wait. -/
theorem step_due {closeReq : Bool} {a : RelayAction} {puts : List (Nat × QueuedRelayMessage)}
    {due : Nat → Bool} (h : Due due r.sendqs)
    (hq : ∀ m rest, r.outbound = m :: rest → m.kind = .message → m.data ≠ [])
    (hs : r.step closeReq a = some (r', puts)) :
    Due (noted due (r.due closeReq a)) r'.sendqs := by
  have hcallback (out : Outcome Relay) (events : List (RelayKey × Mask)) :
      (afterCallback out events).sendqs = out.state.sendqs := by
    unfold afterCallback
    split
    · rfl
    · rfl
  have houtbound (out : Outcome Relay) : (afterOutbound out).sendqs = out.state.sendqs := by
    unfold afterOutbound
    split
    · rfl
    · rfl
    · rfl
  cases step_moves hs with
  | @accepts mask events addr hp =>
    rw [hcallback]
    refine h.note ?_ fun k hk => ?_
    · simp [sendqs, acceptInboundConnection]
    · simp [sendqs, acceptInboundConnection, hk]
  | @io sock mask events io hp hio =>
    rw [hcallback]
    simp only [Relay.due, hp]
    cases hname : io.getpeername with
    | error e =>
      simp only [handleSocket, hname]
      exact h
    | ok =>
      cases hl : r.connectionTable.lookup (r.conns sock).peer with
      | none =>
        simp only [handleSocket, hname, hl]
        exact h
      | some con =>
        simp only [hl]
        exact h.send fun k => handleSocket_sendqs k hname hl
  | drained hp hc =>
    have hnone : r.due closeReq .turn = none := by
      simp only [Relay.due, hp]
      rcases hc with hc | hc | hc
      · split <;> simp [hc]
      · split <;> simp [hc]
      · simp [hc]
    rw [hnone]
    exact h
  | @handles m rest hp hc ho =>
    have htakes : r.due closeReq .turn = if m.kind = .message then
        (r.connectionTable.lookup m.peer).map fun n => (n, true) else none := by
      simp [Relay.due, hp, ho, hc.1, hc.2]
    rw [houtbound, htakes]
    exact handleOutbound_due (r := { r with outbound := rest }) h (hq m rest ho)
  | leaves hp hc | dispatched hp | closes hp =>
    simp only [Relay.due, hp]
    exact h
  | @cleansUp addr hp =>
    simp only [Relay.due, hp]
    have hsame : Due due (r.cleanUpConnection addr).state.sendqs := by
      rw [cleanUpConnection_sendqs]
      exact h
    split
    · exact hsame
    · exact hsame
  | _ => exact h

end Relay

/-! ## Runs with what is due -/

open PortPort.System (Action)

/-- A run of the system, with the sockets at which bytes are due by what has happened in it. -/
structure DueRun where
  sys : System
  /-- the connections at whose local sockets bytes are due -/
  localDue : Nat → Bool := fun _ => false
  /-- those at whose external hosts' sockets bytes are due -/
  externalDue : Nat → Bool := fun _ => false

namespace DueRun

/-- What a step that leads to `sys` adds to the record. -/
def record (g : DueRun) (a : Action) (sys : System) : DueRun :=
  match a with
  | .proxy b => { g with sys, localDue := noted g.localDue (g.sys.proxy.due b) }
  | .relay b =>
    { g with sys, externalDue := noted g.externalDue (g.sys.relay.due g.sys.server.closeService b) }
  | _ => { g with sys }

def step (g : DueRun) (a : Action) : Option DueRun := (g.sys.step a).map (g.record a)

def Init (g : DueRun) : Prop := ∃ s, System.Init s ∧ g = { sys := s }

abbrev Reachable (P : DueRun → Action → Prop) : DueRun → Prop :=
  Transition.Reach (Transition.Fires step) P Init

/-- The execution of a list of actions from the start. -/
def run (test : DueRun → Action → Bool) (as : List Action) : Option DueRun :=
  Transition.exec step test { sys := System.start 4000 } as

theorem Reachable.of_run {P : DueRun → Action → Prop} {test : DueRun → Action → Bool}
    (htest : ∀ g a, test g a → P g a) {as : List Action} {g : DueRun} (h : run test as = some g) :
    Reachable P g :=
  .exec htest (.init ⟨_, ⟨4000, by decide, by decide, rfl⟩, rfl⟩) h

/-- What is computed from the last state of a run and the state behind one more step. -/
theorem exists_of_run {α : Type} (test : DueRun → Action → Bool) (as : List Action) (a : Action)
    {f : DueRun → DueRun → α} {x : α}
    (h : ((run test as).bind fun g => (g.step a).map (f g)) = some x) :
    ∃ g g', run test as = some g ∧ g.step a = some g' ∧ f g g' = x :=
  Transition.exists_of_exec h

@[simp] theorem record_sys (g : DueRun) (a : Action) (s : System) : (g.record a s).sys = s := by
  cases a with
  | _ => rfl

variable {g g' : DueRun} {a : Action}

theorem step_sys (h : g.step a = some g') :
    g.sys.step a = some g'.sys ∧ g' = g.record a g'.sys := by
  obtain ⟨s, hs, rfl⟩ := Option.map_eq_some_iff.mp h
  rw [record_sys]
  exact ⟨hs, rfl⟩

theorem Reachable.system {P : DueRun → Action → Prop} {Q : System → Action → Prop}
    (hPQ : ∀ g a, P g a → Q g.sys a) (h : Reachable P g) : System.Reachable Q g.sys := by
  induction h with
  | init hi =>
    obtain ⟨s, hs, rfl⟩ := hi
    exact .init hs
  | step _ hp hs ih => exact ih.step (hPQ _ _ hp) (step_sys hs).1

/-- Every run of the system is recorded. -/
theorem exists_recorded {P : System → Action → Prop} {s : System} (h : System.Reachable P s) :
    ∃ g, Reachable (fun g a => P g.sys a) g ∧ g.sys = s := by
  induction h with
  | init hi => exact ⟨_, .init ⟨_, hi, rfl⟩, rfl⟩
  | @step s a s' _ hp hs ih =>
    obtain ⟨g, hg, rfl⟩ := ih
    refine ⟨g.record a s', hg.step (a := a) hp ?_, record_sys g a s'⟩
    exact Option.map_eq_some_iff.mpr ⟨s', hs, rfl⟩

/-- The record is right: bytes are due exactly where bytes wait. -/
structure Recorded (g : DueRun) : Prop where
  localDue : Due g.localDue g.sys.proxy.sendqs
  externalDue : Due g.externalDue g.sys.relay.sendqs

theorem Recorded.step {A : Tunnel.State Peer UInt8 → Peer → Prop} {own : Prop} {p : Int}
    {t : Tunnel.State Peer UInt8} (h : g.Recorded) (hm : Models A own p g.sys t)
    (hs : g.step a = some g') : g'.Recorded := by
  obtain ⟨hs, hg⟩ := step_sys hs
  obtain ⟨fd, qs, hS, hC, hD, hU⟩ := hm.refines
  have hn : 0 < g.sys.server.nrelays := hS.nrelays ▸ Nat.one_pos
  rw [hg]
  cases a with
  | proxy b =>
    obtain ⟨-, l, puts, hl, hs'⟩ := System.proxyStep_cases hs
    have hproxy : g'.sys.proxy = l := by rw [hs']; rfl
    have hrelay : g'.sys.relay = g.sys.relay := by rw [hs']; rfl
    refine ⟨?_, hrelay ▸ h.externalDue⟩
    change Due _ g'.sys.proxy.sendqs
    rw [hproxy]
    refine LocalProxy.step_due h.localDue (fun m rest ho hk => ?_) hl
    exact ((hD.items m (by simp [System.downItems, LocalProxy.pending, ho])).data hk).1
  | relay b =>
    obtain ⟨r, puts, hr, hs'⟩ := System.relayStep_cases hs
    have hproxy : g'.sys.proxy = g.sys.proxy := by rw [hs']; rfl
    have hrelay : g'.sys.relay = r := by
      rw [hs']
      simp [System.relay, Server.relayMoved]
    refine ⟨hproxy ▸ h.localDue, ?_⟩
    change Due _ g'.sys.relay.sendqs
    rw [hrelay]
    refine Relay.step_due h.externalDue (fun m rest ho hk => ?_) hr
    exact ((hU.items m (by simp [System.upItems, ho])).1.data hk).1
  | mgr _ | remote _ | serverShutdown | clientShutdown =>
    have hproxy : g'.sys.proxy.conns = g.sys.proxy.conns := by
      rcases System.step_proxy hs with hc | ⟨b, _, hb, -⟩
      · exact hc
      · cases hb
    have hrelay : g'.sys.relay.conns = g.sys.relay.conns := by
      rcases System.step_relay hn hs with hc | ⟨b, _, hb, -⟩
      · exact hc
      · cases hb
    constructor
    · change Due g.localDue g'.sys.proxy.sendqs
      rw [LocalProxy.sendqs_congr hproxy]
      exact h.localDue
    · change Due g.externalDue g'.sys.relay.sendqs
      rw [Relay.sendqs_congr hrelay]
      exact h.externalDue

theorem Reachable.recorded {P : DueRun → Action → Prop} (h : Reachable P g) : g.Recorded := by
  refine Transition.Reach.invariant_of (J := Recorded)
    (K := fun g => ∃ p t, Models (fun _ _ => True) False p g.sys t)
    (fun _ h => (Reachable.system (Q := fun _ _ => True) (fun _ _ _ => trivial) h).models_any)
    ?_ ?_ h
  · rintro _ ⟨_, ⟨p, -, -, rfl⟩, rfl⟩
    exact ⟨fun n => by simp [LocalProxy.sendqs, System.start, System.proxy],
      fun n => by simp [Relay.sendqs, System.start, System.relay]⟩
  · rintro g a g' ⟨p, t, hm⟩ h - hs
    exact h.step hm hs

end DueRun
end PortPort
