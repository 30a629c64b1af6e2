import PortPort.Common.Sockets

/-! # The local proxy thread (`create_local_proxy` in `client/cli.py`)

A move of the thread is the handling of one item of `to_local`, a return of `select`, one callback,
or one step of the final clean-up. The connections the thread makes are named by the number of the
proxied connection whose NEW_CONNECTION they answer; the number names the `ProxiedConnection`
object and its socket. -/

namespace PortPort

/-- A `ProxiedConnection` and its socket. -/
structure ProxiedConnection where
  addr : Peer := (.dotted 0 0 0 0, 0)
  relayId : Int := 0
  sendq : Bytes := []
  closedMsgSent : Bool := false
  writeEnabled : Bool := false
  /-- the descriptor of the socket, which the kernel may give out again once it is closed -/
  fd : Nat := 0
  sck : Sock := {}
  /-- the local service refused the connection -/
  refused : Bool := false
  deriving DecidableEq

/-- The file objects registered in the selector of the local proxy. -/
inductive LocalKey
  | wakeup
  | conn (n : Nat)
  deriving DecidableEq

/-- Where the thread stands in `create_local_proxy`. -/
inductive LocalPhase
  | top
  /-- in the loop over at most `BOUNDED_BATCH` items, with so many turns left -/
  | batch (left : Nat)
  | select
  | dispatch (events : List (LocalKey × Mask))
  | closing
  | done
  | crashed (e : PyError)
  deriving DecidableEq

structure LocalProxy where
  phase : LocalPhase := .top
  remotePort : Int
  toLocal : List QueuedRelayMessage := []
  connections : Dict Peer Nat := ∅
  conns : Nat → ProxiedConnection := fun _ => {}
  /-- the connections made so far -/
  created : List Nat := []
  /-- the selector's map: the object registered under a descriptor, and its events -/
  fdToKey : Nat → Option (Nat × Mask) := fun _ => none
  wakeupPending : Bool := false
  /-- the item with which the thread has ended, if no socket could be made for it -/
  lost : Option QueuedRelayMessage := none

namespace LocalProxy

def BOUNDED_BATCH : Nat := 5

def setConn (l : LocalProxy) (n : Nat) (c : ProxiedConnection) : LocalProxy :=
  { l with conns := Function.update l.conns n c }

def wakeup (l : LocalProxy) : LocalProxy := { l with wakeupPending := true }

/-- The items that have not been handled. -/
def pending (l : LocalProxy) : List QueuedRelayMessage := l.lost.toList ++ l.toLocal

/-- `_fileobj_lookup` and the look-up in the map: the descriptor of an open socket, else the one
under which this very object is still registered. -/
def lookupKey (l : LocalProxy) (n : Nat) : Except PyError Nat :=
  let c := l.conns n
  if c.sck.isOpen then
    if (l.fdToKey c.fd).isSome then .ok c.fd else .error .keyError
  else if (l.fdToKey c.fd).map Prod.fst = some n then .ok c.fd
  else .error (.valueError "Invalid file descriptor: -1")

/-- `selector.register(conn, events, ...)`: a `KeyError` if the descriptor is in the map. -/
def register (l : LocalProxy) (n : Nat) (events : Mask) : Outcome LocalProxy :=
  let fd := (l.conns n).fd
  if (l.fdToKey fd).isSome then { state := l, raised := some .keyError }
  else { state := { l with fdToKey := Function.update l.fdToKey fd (some (n, events)) } }

/-- `selector.unregister(conn)`. -/
def unregister (l : LocalProxy) (n : Nat) : Outcome LocalProxy :=
  match l.lookupKey n with
  | .ok fd => { state := { l with fdToKey := Function.update l.fdToKey fd none } }
  | .error e => { state := l, raised := some e }

/-- `selector.modify(conn, events, ...)`: changing the events of a closed descriptor raises. -/
def modify (l : LocalProxy) (n : Nat) (events : Mask) : Outcome LocalProxy :=
  match l.lookupKey n with
  | .error e => { state := l, raised := some e }
  | .ok fd =>
    if (l.fdToKey fd).map Prod.snd ≠ some events ∧ !(l.conns n).sck.isOpen then
      { state := { l with fdToKey := Function.update l.fdToKey fd none }
        raised := some (.os (.other 9)) }
    else
      { state := { l with
          fdToKey := Function.update l.fdToKey fd ((l.fdToKey fd).map fun (n, _) => (n, events)) } }

/-- `cleanup_socket`. -/
def cleanupSocket (l : LocalProxy) (address : Peer) : Outcome LocalProxy :=
  match l.connections.lookup address with
  | none => { state := l, raised := some .keyError }
  | some n =>
    let out := l.unregister n
    match out.raised with
    | some e => { state := out.state, raised := some e }
    | none =>
      let c := out.state.conns n
      { state := { out.state.setConn n { c with sck := c.sck.close } with
          connections := out.state.connections.erase address } }

/-- The results of the socket calls behind one NEW_CONNECTION. -/
structure ConnectIO where
  /-- `socket()`: the descriptor of the new socket -/
  socket : Except OSError Nat
  connect : Except OSError Unit

/-- The NEW_CONNECTION branch behind `socket()`, for the proxied connection `n` whose socket has
the descriptor `fd`. -/
def enterConnection (l : LocalProxy) (n : Nat) (m : QueuedRelayMessage) (fd : Nat)
    (connect : Except OSError Unit) : Outcome LocalProxy :=
  let l := { l with
    conns := Function.update l.conns n { addr := m.peer, relayId := m.relayPort, fd }
    created := n :: l.created
    connections := l.connections.set m.peer n }
  let out := l.register n .r
  match out.raised, connect with
  | some e, _ => { state := out.state, raised := some e }
  | none, .ok _ => { state := out.state }
  | none, .error .connectionRefused =>
    let c := out.state.conns n
    let cleaned := (out.state.setConn n { c with refused := true }).cleanupSocket m.peer
    { cleaned with puts := [(n, ⟨.closeConnection, m.addr, m.port, [], l.remotePort⟩)] }
  | none, .error e => { state := out.state, raised := some (.os e) }

/-- The NEW_CONNECTION branch, for the proxied connection `n`. Nothing catches what `socket()`
raises. -/
def newConnection (l : LocalProxy) (n : Nat) (m : QueuedRelayMessage) (io : ConnectIO) :
    Outcome LocalProxy :=
  match io.socket with
  | .ok fd => l.enterConnection n m fd io.connect
  | .error e => { state := { l with lost := some m }, raised := some (.os e) }

/-- The MESSAGE branch, for data of the proxied connection `n`. -/
def message (l : LocalProxy) (n : Nat) (m : QueuedRelayMessage) : Outcome LocalProxy :=
  match l.connections.lookup m.peer with
  | none =>
    { state := l, puts := [(n, ⟨.closeConnection, m.addr, m.port, [], l.remotePort⟩)] }
  | some k =>
    let c := l.conns k
    let l := l.setConn k { c with sendq := c.sendq ++ m.data, writeEnabled := true }
    if c.writeEnabled then { state := l } else l.modify k .rw

/-- One item of `to_local`, about the proxied connection `n`. -/
def handleItem (l : LocalProxy) (n : Nat) (m : QueuedRelayMessage) (io : ConnectIO) :
    Outcome LocalProxy :=
  match m.kind with
  | .newConnection => l.newConnection n m io
  | .message => l.message n m
  | .closeConnection => l.cleanupSocket m.peer

/-- The results of the socket calls of one `handle_io_event`. -/
structure ConnIO where
  recv : Except OSError Bytes
  send : Except OSError Nat

/-- The part of `handle_io_event` behind `mask & EVENT_WRITE`. -/
def handleWrite (l : LocalProxy) (n : Nat) (send : Except OSError Nat) : Outcome LocalProxy :=
  let c := l.conns n
  match send with
  | .ok sentLen =>
    let sendq := c.sendq.drop sentLen
    let c := { c with sck := c.sck.send (c.sendq.take sentLen), sendq }
    if sendq = [] then
      let out := (l.setConn n { c with writeEnabled := false }).modify n .r
      match out.raised with
      | none => { state := out.state.wakeup }
      | some e => { state := out.state, raised := some e }
    else { state := l.setConn n c }
  | .error .connectionReset | .error .brokenPipe =>
    { state := l.setConn n { c with sck := c.sck.close, closedMsgSent := true }
      puts := [(n, ⟨.closeConnection, c.addr.1, c.addr.2, [], c.relayId⟩)] }
  | .error .blockingIo => { state := l }
  | .error e => { state := l, raised := some (.os e) }

/-- `ProxiedConnection.handle_io_event` of the connection `n`. -/
def handleIoEvent (l : LocalProxy) (n : Nat) (mask : Mask) (io : ConnIO) : Outcome LocalProxy :=
  let c := l.conns n
  let write (l : LocalProxy) : Outcome LocalProxy :=
    if mask.write && (l.conns n).sendq ≠ [] then l.handleWrite n io.send else { state := l }
  if mask.read then
    match io.recv with
    | .ok data =>
      let c := { c with sck := c.sck.recv data }
      if data = [] then
        { state := l.setConn n { c with sck := c.sck.close, closedMsgSent := true }
          puts := [(n, ⟨.closeConnection, c.addr.1, c.addr.2, data, c.relayId⟩)] }
      else
        let out := write (l.setConn n c)
        { out with puts := (n, ⟨.message, c.addr.1, c.addr.2, data, c.relayId⟩) :: out.puts }
    | .error .connectionReset | .error .brokenPipe =>
      { state := l.setConn n { c with sck := c.sck.close } }
    | .error .blockingIo => write l
    | .error e => { state := l, raised := some (.os e) }
  else write l

/-- The events `select` may return: open registered sockets, each once. -/
def selectable (l : LocalProxy) (events : List (LocalKey × Mask)) : Bool :=
  (events.map Prod.fst).Nodup && events.all fun (key, mask) =>
    match key with
    | .wakeup => mask = .r
    | .conn n => (l.conns n).sck.isOpen &&
        (l.fdToKey (l.conns n).fd).any fun (k, registered) => k = n && mask.le registered

/-- The descriptor of a new socket is not that of an open one. -/
def fdFree (l : LocalProxy) (fd : Nat) : Bool :=
  l.created.all fun n => !(l.conns n).sck.isOpen || (l.conns n).fd ≠ fd

/-- A socket that is made is a new one, with a free descriptor. -/
def socketAllowed (l : LocalProxy) (n : Nat) (io : ConnectIO) : Bool :=
  match io.socket with
  | .ok fd => n ∉ l.created && l.fdFree fd
  | .error _ => true

inductive LocalAction
  /-- the next item of `to_local`, which is about the proxied connection `n` -/
  | item (n : Nat) (io : ConnectIO)
  | select (events : List (LocalKey × Mask))
  | io (io : ConnIO)
  | wakeupRead
  | turn

/-- The phase behind a handler: an exception ends the thread. -/
def after (out : Outcome LocalProxy) (phase : LocalPhase) : LocalProxy :=
  { out.state with phase := match out.raised with
    | none => phase
    | some e => .crashed e }

/-- One move of the local proxy thread, and the messages it puts on `to_proxy`; `close` is the
state of the client's close event. -/
def step (close : Bool) (l : LocalProxy) (a : LocalAction) :
    Option (LocalProxy × List (Nat × QueuedRelayMessage)) :=
  match l.phase, a with
  | .top, .turn => some ({ l with phase := if close then .closing else .batch BOUNDED_BATCH }, [])
  | .batch 0, .turn => some ({ l with phase := .select }, [])
  | .batch (_ + 1), .turn =>
    if l.toLocal = [] then some ({ l with phase := .select }, []) else none
  | .batch (left + 1), .item n io =>
    match l.toLocal with
    | [] => none
    | m :: toLocal =>
      if m.kind = .newConnection ∧ !l.socketAllowed n io then none
      else
        let out := { l with toLocal }.handleItem n m io
        some (after out (.batch left), out.puts)
  | .select, .select events =>
    if l.selectable events then some ({ l with phase := .dispatch events }, []) else none
  | .dispatch ((.conn n, mask) :: events), .io io =>
    if recvAllowed io.recv && sendAllowed io.send (l.conns n).sendq then
      let out := l.handleIoEvent n mask io
      some (after out (.dispatch events), out.puts)
    else none
  | .dispatch ((.wakeup, _) :: events), .wakeupRead =>
    some ({ l with phase := .dispatch events, wakeupPending := false }, [])
  | .dispatch [], .turn => some ({ l with phase := .top }, [])
  | .closing, .turn =>
    match Dict.first? l.connections with
    | some addr =>
      let n := (l.connections.lookup addr).getD 0
      let relayId := (l.conns n).relayId
      let out := l.cleanupSocket addr
      match out.raised with
      | none => some (out.state, [(n, ⟨.closeConnection, addr.1, addr.2, [], relayId⟩)])
      | some e => some ({ out.state with phase := .crashed e }, [])
    | none => some ({ l with phase := .done }, [])
  | _, _ => none

/-- What a step of the thread does, one case for each branch of `step`. -/
inductive LocalMoves (close : Bool) (l : LocalProxy) :
    LocalAction → LocalProxy → List (Nat × QueuedRelayMessage) → Prop
  | begins (hp : l.phase = .top) :
      LocalMoves close l .turn
        { l with phase := if close then .closing else .batch BOUNDED_BATCH } []
  | bounded (hp : l.phase = .batch 0) : LocalMoves close l .turn { l with phase := .select } []
  | emptied (hp : l.phase = .batch (left + 1)) (ht : l.toLocal = []) :
      LocalMoves close l .turn { l with phase := .select } []
  | item (hp : l.phase = .batch (left + 1)) (ht : l.toLocal = m :: rest)
      (hfree : ¬ (m.kind = .newConnection ∧ !l.socketAllowed n io)) :
      LocalMoves close l (.item n io)
        (after ({ l with toLocal := rest }.handleItem n m io) (.batch left))
        ({ l with toLocal := rest }.handleItem n m io).puts
  | selects (hp : l.phase = .select) (hsel : l.selectable events = true) :
      LocalMoves close l (.select events) { l with phase := .dispatch events } []
  | io (hp : l.phase = .dispatch ((.conn n, mask) :: events))
      (hio : (recvAllowed io.recv && sendAllowed io.send (l.conns n).sendq) = true) :
      LocalMoves close l (.io io) (after (l.handleIoEvent n mask io) (.dispatch events))
        (l.handleIoEvent n mask io).puts
  | wakeupRead (hp : l.phase = .dispatch ((.wakeup, mask) :: events)) :
      LocalMoves close l .wakeupRead { l with phase := .dispatch events, wakeupPending := false } []
  | dispatched (hp : l.phase = .dispatch []) : LocalMoves close l .turn { l with phase := .top } []
  | drops (hp : l.phase = .closing) (hf : Dict.first? l.connections = some addr)
      (hn : (l.connections.lookup addr).getD 0 = n) (hr : (l.cleanupSocket addr).raised = none) :
      LocalMoves close l .turn (l.cleanupSocket addr).state
        [(n, ⟨.closeConnection, addr.1, addr.2, [], (l.conns n).relayId⟩)]
  | dropFails (hp : l.phase = .closing) (hf : Dict.first? l.connections = some addr)
      (hr : (l.cleanupSocket addr).raised = some e) :
      LocalMoves close l .turn { (l.cleanupSocket addr).state with phase := .crashed e } []
  | ends (hp : l.phase = .closing) (hnone : Dict.first? l.connections = none) :
      LocalMoves close l .turn { l with phase := .done } []

theorem step_moves {l l' : LocalProxy} {close : Bool} {a : LocalAction}
    {puts : List (Nat × QueuedRelayMessage)} (h : l.step close a = some (l', puts)) :
    LocalMoves close l a l' puts := by
  unfold step at h
  split at h
  · cases h
    exact .begins ‹_›
  · cases h
    exact .bounded ‹_›
  · split at h <;> cases h
    exact .emptied ‹_› ‹_›
  · split at h
    · cases h
    split at h <;> cases h
    exact .item ‹_› ‹_› ‹_›
  · split at h <;> cases h
    exact .selects ‹_› ‹_›
  · split at h <;> cases h
    exact .io ‹_› ‹_›
  · cases h
    exact .wakeupRead ‹_›
  · cases h
    exact .dispatched ‹_›
  · rename_i hp
    split at h
    · simp only at h
      split at h <;> cases h
      · exact .drops hp ‹_› rfl ‹_›
      · exact .dropFails hp ‹_› ‹_›
    · cases h
      exact .ends hp ‹_›
  · cases h

/-- Behind a handler the thread goes on in the phase given, unless it has crashed. -/
theorem after_phase {out : Outcome LocalProxy} {phase p : LocalPhase}
    (h : (after out phase).phase = p) (hp : ∀ e, p ≠ .crashed e) : p = phase := by
  unfold after at h
  split at h
  · exact h.symm
  · exact absurd h.symm (hp _)

theorem pending_eq {l : LocalProxy} (h : l.lost = none) : l.pending = l.toLocal := by
  simp [pending, h]

theorem socketAllowed_ok {l : LocalProxy} {n fd : Nat} {io : ConnectIO} (hs : io.socket = .ok fd) :
    l.socketAllowed n io = true ↔ n ∉ l.created ∧ l.fdFree fd = true := by
  unfold socketAllowed
  rw [hs]
  simp

theorem step_item {l l' : LocalProxy} {close : Bool} {n : Nat} {io : ConnectIO}
    {puts : List (Nat × QueuedRelayMessage)} (h : l.step close (.item n io) = some (l', puts)) :
    ∃ left m toLocal, l.phase = .batch (left + 1) ∧ l.toLocal = m :: toLocal ∧
      l' = after ({ l with toLocal }.handleItem n m io) (.batch left) ∧
      puts = ({ l with toLocal }.handleItem n m io).puts := by
  cases step_moves h with
  | item hp ht => exact ⟨_, _, _, hp, ht, rfl, rfl⟩

end LocalProxy

end PortPort
