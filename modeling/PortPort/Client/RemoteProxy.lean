import PortPort.Common.Codec
import PortPort.Client.LocalProxy

/-! # The remote proxy thread (`create_remote_proxy` in `client/cli.py`)

`Client` is the client after its handshake: the local variables of `create_remote_proxy`, the local
proxy thread it has started, and the close event they share. -/

namespace PortPort

/-- The file objects registered in the selector of `create_remote_proxy`. -/
inductive RemoteKey
  | wakeup | client
  deriving DecidableEq

/-- Where the thread stands in the steady part of `create_remote_proxy`. -/
inductive RemotePhase
  | top
  | dispatch (events : List (RemoteKey × Mask))
  | recvLoop
  /-- in the loop over at most `BOUNDED_BATCH` items of `to_remote_proxy` -/
  | batch (left : Nat)
  /-- behind the loop, joining the local proxy thread -/
  | joining
  | done
  | crashed (e : PyError)
  deriving DecidableEq

structure RemoteProxy where
  phase : RemotePhase := .top
  toRemoteProxy : List QueuedRelayMessage := []
  sendq : Bytes := []
  recvq : Bytes := []
  writeEnabled : Bool := false
  /-- the events for which the management socket is registered, if it is -/
  mask : Option Mask := some .r
  socketClosed : Bool := false
  wakeupPending : Bool := false

/-- The results of the socket calls of one `handle_relay`. -/
structure RelayIO where
  send : Except OSError Nat
  recv : Except OSError Bytes

/-- What one callback leaves behind: the thread's state, whether it set the close event, whether
it returned early, and the exception that escaped it. -/
structure RemoteOutcome where
  state : RemoteProxy
  close : Bool := false
  returned : Bool := false
  raised : Option PyError := none

namespace RemoteProxy

def BOUNDED_BATCH : Nat := 5

/-- `conn.close()`, `selector.unregister(conn)` and `close.set()`, in whichever order. -/
def drop (c : RemoteProxy) : RemoteProxy := { c with socketClosed := true, mask := none }

/-- The part of `handle_relay` behind `mask & EVENT_WRITE`. -/
def handleWrite (c : RemoteProxy) (send : Except OSError Nat) : RemoteOutcome :=
  match send with
  | .ok sentLen => { state := { c with sendq := c.sendq.drop sentLen } }
  | .error .brokenPipe | .error .connectionReset =>
    { state := c.drop, close := true, returned := true }
  | .error .blockingIo | .error .sslWantWrite | .error .sslWantRead => { state := c }
  | .error e => { state := c, raised := some (.os e) }

/-- The part of `handle_relay` behind `mask & EVENT_READ`. -/
def handleRead (c : RemoteProxy) (recv : Except OSError Bytes) : RemoteOutcome :=
  match recv with
  | .ok data =>
    if data = [] then { state := c.drop, close := true, returned := true }
    else { state := { c with recvq := c.recvq ++ data } }
  | .error .connectionReset | .error .brokenPipe => { state := c.drop, close := true }
  | .error .blockingIo | .error .sslWantRead | .error .sslWantWrite => { state := c }
  | .error e => { state := c, raised := some (.os e) }

def handleRelay (c : RemoteProxy) (mask : Mask) (io : RelayIO) : RemoteOutcome :=
  let out : RemoteOutcome :=
    if mask.write && c.sendq ≠ [] then c.handleWrite io.send else { state := c }
  if out.returned = false ∧ out.raised = none ∧ mask.read then out.state.handleRead io.recv
  else out

/-- `enqueue_sendq`: the socket is unregistered only where it is closed too, and registering write
interest in it raises. -/
def enqueueSendq (c : RemoteProxy) (data : Bytes) : RemoteOutcome :=
  let c := { c with sendq := c.sendq ++ data }
  if data ≠ [] ∧ c.writeEnabled = false then
    let c := { c with writeEnabled := true }
    match c.mask with
    | some _ => { state := { c with mask := some .rw } }
    | none => { state := c, raised := some (.valueError "Invalid file descriptor: -1") }
  else { state := c }

/-- The frame that carries an item of `to_remote_proxy` to the server. -/
def frameOf (q : QueuedRelayMessage) : Except PyError PortPortMessage :=
  match q.kind with
  | .closeConnection =>
    .ok { msgType := .closeConnection, addr := q.addr, port := q.port, relayPort := q.relayPort }
  | .message =>
    .ok { msgType := .data, addr := q.addr, port := q.port, relayPort := q.relayPort,
          data := q.data }
  | .newConnection => .error (.exception "Unknown RelayMessageType!")

/-- One turn of the drain of `to_remote_proxy`. -/
def batchTurn (c : RemoteProxy) (left : Nat) : RemoteProxy :=
  if left = 0 then { c with phase := .top } else
  match c.toRemoteProxy with
  | [] => { c with phase := .top }
  | q :: toRemoteProxy =>
    let c := { c with toRemoteProxy }
    match frameOf q with
    | .error e => { c with phase := .crashed e }
    | .ok msg =>
      match msg.serialize with
      | .error e => { c with phase := .crashed e }
      | .ok data =>
        let out := c.enqueueSendq data
        { out.state with phase := match out.raised with
          | none => .batch (left - 1)
          | some e => .crashed e }

/-- The events `select` may return. -/
def selectable (c : RemoteProxy) (events : List (RemoteKey × Mask)) : Bool :=
  (events.map Prod.fst).Nodup && events.all fun (key, mask) =>
    match key with
    | .wakeup => mask = .r
    | .client => c.mask.any mask.le

end RemoteProxy

structure Client where
  remote : RemoteProxy
  proxy : LocalProxy
  close : Bool := false

/-- The item of `from_remote_proxy` that `process_msg` makes of a message, if it makes one. -/
def itemOf (msg : PortPortMessage) : Option QueuedRelayMessage :=
  match msg.msgType with
  | .newConnection => some ⟨.newConnection, msg.addr, msg.port, [], msg.relayPort⟩
  | .closeConnection => some ⟨.closeConnection, msg.addr, msg.port, [], msg.relayPort⟩
  | .data => some ⟨.message, msg.addr, msg.port, msg.data, msg.relayPort⟩
  | _ => none

namespace Client

/-- `process_msg`. -/
def processMsg (c : Client) (msg : PortPortMessage) : Client :=
  match itemOf msg with
  | some q => { c with proxy := { c.proxy with toLocal := c.proxy.toLocal ++ [q] }.wakeup }
  | none =>
    if msg.msgType = .error then { c with close := true, proxy := c.proxy.wakeup } else c

def goto (c : Client) (p : RemotePhase) : Client :=
  { c with remote := { c.remote with phase := p } }

/-- One turn of `while len(recvq) > 0`. -/
def recvTurn (c : Client) : Client :=
  if c.remote.recvq = [] then c.goto (.batch RemoteProxy.BOUNDED_BATCH) else
  match grabMsg c.remote.recvq with
  | .ok (msg, recvq) => { c with remote := { c.remote with recvq } }.processMsg msg
  | .error _ => c.goto (.batch RemoteProxy.BOUNDED_BATCH)

inductive RemoteAction
  | select (events : List (RemoteKey × Mask))
  | relayIo (io : RelayIO)
  | wakeupRead
  | turn

/-- One move of the remote proxy thread. -/
def remoteStep (c : Client) (a : RemoteAction) : Option Client :=
  match c.remote.phase, a with
  | .top, .turn => if c.close then some (c.goto .joining) else none
  | .top, .select events =>
    if !c.close && c.remote.selectable events then some (c.goto (.dispatch events)) else none
  | .dispatch ((.client, mask) :: events), .relayIo io =>
    if sendAllowed io.send c.remote.sendq && recvAllowed io.recv then
      let out := c.remote.handleRelay mask io
      some { c with
        close := c.close || out.close
        remote := { out.state with phase := match out.raised with
          | none => .dispatch events
          | some e => .crashed e } }
    else none
  | .dispatch ((.wakeup, _) :: events), .wakeupRead =>
    some { c with remote := { c.remote with phase := .dispatch events, wakeupPending := false } }
  | .dispatch [], .turn => some (c.goto .recvLoop)
  | .recvLoop, .turn => some c.recvTurn
  | .batch left, .turn => some { c with remote := c.remote.batchTurn left }
  | .joining, .turn =>
    match c.proxy.phase with
    | .done | .crashed _ => some (c.goto .done)
    | _ => none
  | _, _ => none

/-- What a step of the thread does, one case for each branch of `remoteStep`. -/
inductive RemoteMoves (c : Client) : RemoteAction → Client → Prop
  | leaves (hp : c.remote.phase = .top) (hc : c.close = true) :
      RemoteMoves c .turn (c.goto .joining)
  | selects (hp : c.remote.phase = .top)
      (hc : (!c.close && c.remote.selectable events) = true) :
      RemoteMoves c (.select events) (c.goto (.dispatch events))
  | relayIo (hp : c.remote.phase = .dispatch ((.client, mask) :: events))
      (hio : (sendAllowed io.send c.remote.sendq && recvAllowed io.recv) = true) :
      RemoteMoves c (.relayIo io) { c with
        close := c.close || (c.remote.handleRelay mask io).close
        remote := { (c.remote.handleRelay mask io).state with
          phase := match (c.remote.handleRelay mask io).raised with
            | none => .dispatch events
            | some e => .crashed e } }
  | wakeupRead (hp : c.remote.phase = .dispatch ((.wakeup, mask) :: events)) :
      RemoteMoves c .wakeupRead
        { c with remote := { c.remote with phase := .dispatch events, wakeupPending := false } }
  | dispatched (hp : c.remote.phase = .dispatch []) : RemoteMoves c .turn (c.goto .recvLoop)
  | breaks (hp : c.remote.phase = .recvLoop)
      (hq : c.remote.recvq = [] ∨ ∃ e, grabMsg c.remote.recvq = .error e) :
      RemoteMoves c .turn (c.goto (.batch RemoteProxy.BOUNDED_BATCH))
  | takes (hp : c.remote.phase = .recvLoop) (hgrab : grabMsg c.remote.recvq = .ok (msg, recvq)) :
      RemoteMoves c .turn ({ c with remote := { c.remote with recvq } }.processMsg msg)
  | batch (hp : c.remote.phase = .batch left) :
      RemoteMoves c .turn { c with remote := c.remote.batchTurn left }
  | joined (hp : c.remote.phase = .joining)
      (hd : c.proxy.phase = .done ∨ ∃ e, c.proxy.phase = .crashed e) :
      RemoteMoves c .turn (c.goto .done)

theorem remoteStep_moves {c c' : Client} {a : RemoteAction} (h : c.remoteStep a = some c') :
    RemoteMoves c a c' := by
  unfold remoteStep at h
  split at h
  · rename_i hp
    simp only [Option.ite_none_right_eq_some, Option.some.injEq] at h
    obtain ⟨hc, rfl⟩ := h
    exact .leaves hp hc
  · rename_i hp
    simp only [Option.ite_none_right_eq_some, Option.some.injEq] at h
    obtain ⟨hc, rfl⟩ := h
    exact .selects hp hc
  · rename_i hp
    simp only [Option.ite_none_right_eq_some, Option.some.injEq] at h
    obtain ⟨hio, rfl⟩ := h
    exact .relayIo hp hio
  · cases h
    exact .wakeupRead ‹_›
  · cases h
    exact .dispatched ‹_›
  · rename_i hp
    cases h
    unfold recvTurn
    split
    · exact .breaks hp (.inl ‹_›)
    split
    · exact .takes hp ‹_›
    · exact .breaks hp (.inr ⟨_, ‹_›⟩)
  · cases h
    exact .batch ‹_›
  · rename_i hp
    split at h <;> cases h
    · exact .joined hp (.inl ‹_›)
    · exact .joined hp (.inr ⟨_, ‹_›⟩)
  · cases h

/-- `process_msg` leaves the state of its own thread as it is. -/
theorem processMsg_remote (c : Client) (msg : PortPortMessage) :
    (c.processMsg msg).remote = c.remote := by
  unfold processMsg
  split
  · rfl
  · split <;> rfl

theorem processMsg_proxy (c : Client) (msg : PortPortMessage) : ∃ toLocal wakeupPending,
    (c.processMsg msg).proxy = { c.proxy with toLocal, wakeupPending } := by
  unfold processMsg
  split
  · exact ⟨_, _, rfl⟩
  · split <;> exact ⟨_, _, rfl⟩

/-- The thread does no more to the local proxy than to put an item on its queue and wake it. -/
theorem remoteStep_proxy {c c' : Client} {a : RemoteAction} (h : c.remoteStep a = some c') :
    ∃ toLocal wakeupPending, c'.proxy = { c.proxy with toLocal, wakeupPending } := by
  cases remoteStep_moves h with
  | takes => exact processMsg_proxy ..
  | _ => exact ⟨_, _, rfl⟩

/-- The local proxy has become `l` and has put these messages on `to_remote_proxy`. -/
def proxyMoved (c : Client) (l : LocalProxy) (puts : List (Nat × QueuedRelayMessage)) : Client :=
  { c with
    proxy := l
    remote := { c.remote with
      toRemoteProxy := c.remote.toRemoteProxy ++ puts.map Prod.snd
      wakeupPending := c.remote.wakeupPending || !puts.isEmpty } }

/-- One move of the local proxy thread, with the numbers of the proxied connections that the
messages it puts on `to_remote_proxy` are about. -/
def proxyStep (c : Client) (a : LocalProxy.LocalAction) :
    Option (Client × List (Nat × QueuedRelayMessage)) :=
  (c.proxy.step c.close a).map fun (l, puts) => (c.proxyMoved l puts, puts)

theorem proxyStep_cases {c c' : Client} {a : LocalProxy.LocalAction}
    {puts : List (Nat × QueuedRelayMessage)} (h : c.proxyStep a = some (c', puts)) :
    ∃ l, c.proxy.step c.close a = some (l, puts) ∧ c' = c.proxyMoved l puts := by
  obtain ⟨⟨l, puts'⟩, hl, he⟩ := Option.map_eq_some_iff.mp h
  cases he
  exact ⟨l, hl, rfl⟩

end Client

end PortPort
