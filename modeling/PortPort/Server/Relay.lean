import PortPort.Common.Sockets

/-! # The relay thread (`server/relay.py`)

`Relay.step` is one move of the thread that runs `Relay.open`: a return of `select`, one selector
callback, one turn of the outbound drain, one turn of the final clean-up. The action carries the
results of the socket calls. Accepted sockets are numbered in the order of `accept`; a number also
names the `RelayConnection` object that holds the socket. -/

namespace PortPort

/-- A `RelayConnection` and its socket. -/
structure RelayConnection where
  peer : Peer := (.dotted 0 0 0 0, 0)
  writeEnabled : Bool := false
  sendq : Bytes := []
  sck : Sock := {}
  deriving DecidableEq

/-- The file objects registered in the selector of a relay. -/
inductive RelayKey
  | listening | wakeup
  | conn (n : Nat)
  deriving DecidableEq

/-- Where the thread stands in `Relay.open`. -/
inductive RelayPhase
  /-- before `listen` -/
  | start
  /-- about to test the loop condition -/
  | top
  /-- running the callbacks of the events still to be handled -/
  | dispatch (events : List (RelayKey × Mask))
  /-- in the drain of `outbound` -/
  | drain
  /-- behind the loop, cleaning up the pending connections -/
  | closing
  | closed
  /-- an exception escaped `open` -/
  | crashed (e : PyError)
  deriving DecidableEq

/-- The listening socket of a relay. -/
inductive ServerSocket
  | bound | listening | closed
  deriving DecidableEq

structure Relay where
  phase : RelayPhase := .start
  identifyingPort : Int
  sck : ServerSocket := .bound
  connectionTable : Dict Peer Nat := ∅
  conns : Nat → RelayConnection := fun _ => {}
  nconns : Nat := 0
  /-- the events for which each accepted socket is registered -/
  selector : Nat → Option Mask := fun _ => none
  outbound : List QueuedRelayMessage := []
  atomicClose : Bool := false
  wakeupPending : Bool := false
  /-- `wakeup` has been called behind `atomic_close.set()` -/
  woken : Bool := false
  /-- what the relay has added to the gauge `ACTIVE_CONNECTIONS` -/
  activeConnections : Int := 0

namespace Relay

def setConn (r : Relay) (n : Nat) (c : RelayConnection) : Relay :=
  { r with conns := Function.update r.conns n c }

/-- `selector.modify(sck, events, self.handle_socket)`; `none` is a `KeyError`. -/
def modify (r : Relay) (n : Nat) (events : Mask) : Option Relay :=
  if (r.selector n).isSome then
    some { r with selector := Function.update r.selector n (some events) }
  else none

/-- `selector.unregister(sck)`; `none` is a `KeyError`. -/
def unregister (r : Relay) (n : Nat) : Option Relay :=
  if (r.selector n).isSome then
    some { r with selector := Function.update r.selector n none }
  else none

/-- `wakeup`: the byte sent is lost only if the buffer is full, thus not empty. -/
def wakeup (r : Relay) : Relay :=
  { r with wakeupPending := true, woken := r.woken || r.atomicClose }

def enqueueOutbound (r : Relay) (m : QueuedRelayMessage) : Relay :=
  { r with outbound := r.outbound ++ [m] }.wakeup

/-- `accept_inbound_connection` behind an `accept` that returned a socket with this peer. -/
def acceptInboundConnection (r : Relay) (addr : Peer) : Outcome Relay :=
  let n := r.nconns
  { state := { r with
      conns := Function.update r.conns n { peer := addr }
      nconns := n + 1
      connectionTable := r.connectionTable.set addr n
      selector := Function.update r.selector n (some .r)
      activeConnections := r.activeConnections + 1 }
    puts := [(n, ⟨.newConnection, addr.1, addr.2, [], r.identifyingPort⟩)] }

def cleanUpConnection (r : Relay) (addr : Peer) : Outcome Relay :=
  match r.connectionTable.lookup addr with
  | none => { state := r, raised := some .keyError }
  | some n =>
    let puts := [(n, ⟨.closeConnection, addr.1, addr.2, [], r.identifyingPort⟩)]
    let r := { r with connectionTable := r.connectionTable.erase addr }
    match r.unregister n with
    | none => { state := r, puts, raised := some .keyError }
    | some r =>
      let c := r.conns n
      { state := { r.setConn n { c with sck := c.sck.close } with
          activeConnections := r.activeConnections - 1 }
        puts }

/-- `get_port`: the port of the listening socket, which must not be closed. -/
def getPort (r : Relay) : Except PyError Int :=
  if r.sck = .closed then .error (.os (.other 9)) else .ok r.identifyingPort

/-- The results of the socket calls of one `handle_socket`. -/
structure SocketIO where
  getpeername : Except OSError Unit
  send : Except OSError Nat
  recv : Except OSError Bytes

/-- The part of `handle_socket` behind `mask & EVENT_READ`, on the socket `sock` whose table entry
is `con`. -/
def handleRead (r : Relay) (sock con : Nat) (addr : Peer) (recv : Except OSError Bytes) :
    Outcome Relay :=
  match recv with
  | .ok data =>
    let c := r.conns sock
    let r := r.setConn sock { c with sck := c.sck.recv data }
    if data = [] then r.cleanUpConnection addr
    else
      { state := r, puts := [(con, ⟨.message, addr.1, addr.2, data, r.identifyingPort⟩)] }
  | .error .connectionReset | .error .brokenPipe => r.cleanUpConnection addr
  | .error e => { state := r, raised := some (.os e) }

/-- The part of `handle_socket` behind `mask & EVENT_WRITE`: the state in which the function goes
on, or the outcome with which it ends there. -/
def handleWrite (r : Relay) (sock con : Nat) (addr : Peer) (send : Except OSError Nat) :
    Relay ⊕ Outcome Relay :=
  match send with
  | .ok sentLength =>
    let s := r.conns sock
    let r := r.setConn sock
      { s with sck := s.sck.send ((r.conns con).sendq.take sentLength) }
    let c := r.conns con
    let sendq := c.sendq.drop sentLength
    let r := r.setConn con { c with sendq }
    if sendq = [] then
      let r := r.setConn con { c with sendq, writeEnabled := false }
      match r.modify con .r with
      | some r => .inl r
      | none => .inr { state := r, raised := some .keyError }
    else .inl r
  | .error .brokenPipe | .error .connectionReset => .inr (r.cleanUpConnection addr)
  | .error .blockingIo => .inl r
  | .error e => .inr { state := r, raised := some (.os e) }

/-- `handle_socket` on the accepted socket `sock`. -/
def handleSocket (r : Relay) (sock : Nat) (mask : Mask) (io : SocketIO) : Outcome Relay :=
  match io.getpeername with
  | .error e => { state := r, raised := some (.os e) }
  | .ok () =>
    let addr := (r.conns sock).peer
    match r.connectionTable.lookup addr with
    | none => { state := r, raised := some .keyError }
    | some con =>
      let written :=
        if mask.write && (r.conns con).sendq ≠ [] then r.handleWrite sock con addr io.send
        else .inl r
      match written with
      | .inr out => out
      | .inl r => if mask.read then r.handleRead sock con addr io.recv else { state := r }

/-- What the kernel may answer in `handleSocket`: a closed socket has no peer. -/
def ioAllowed (r : Relay) (sock : Nat) (io : SocketIO) : Bool :=
  (match io.getpeername with
    | .ok _ => (r.conns sock).sck.isOpen
    | .error _ => true) &&
  (match r.connectionTable.lookup (r.conns sock).peer with
    | some con => sendAllowed io.send (r.conns con).sendq
    | none => true) &&
  recvAllowed io.recv

/-- One message of the outbound queue, as the body of the drain loop handles it. -/
def handleOutbound (r : Relay) (m : QueuedRelayMessage) : Outcome Relay :=
  match r.connectionTable.lookup m.peer with
  | none => { state := r, raised := some .keyError }
  | some n =>
    match m.kind with
    | .message =>
      let c := r.conns n
      let r := r.setConn n { c with sendq := c.sendq ++ m.data, writeEnabled := true }
      if c.writeEnabled then { state := r }
      else
        match r.modify n .rw with
        | some r => { state := r }
        | none => { state := r, raised := some .keyError }
    | .closeConnection => r.cleanUpConnection m.peer
    | .newConnection =>
      { state := r
        raised := some (.exception "Processing error: invalid relay message type!") }

/-- How the drain loop goes on after a message: a `KeyError` leaves the loop, any other exception
also sets `atomic_close`. -/
def afterOutbound (out : Outcome Relay) : Relay :=
  match out.raised with
  | none => { out.state with phase := .drain }
  | some .keyError => { out.state with phase := .top }
  | some _ => { out.state with phase := .top, atomicClose := true }

/-- How the dispatch of events goes on after a callback: an exception ends the thread. -/
def afterCallback (out : Outcome Relay) (events : List (RelayKey × Mask)) : Relay :=
  match out.raised with
  | none => { out.state with phase := .dispatch events }
  | some e => { out.state with phase := .crashed e }

/-- The events `select` may return: registered file objects, each once. -/
def selectable (r : Relay) (events : List (RelayKey × Mask)) : Bool :=
  (events.map Prod.fst).Nodup && events.all fun (key, mask) =>
    match key with
    | .listening | .wakeup => mask = .r
    | .conn n => (r.selector n).any mask.le

inductive RelayAction
  /-- `listen` returned, or raised -/
  | listen (result : Except OSError Unit)
  /-- `select` returned these events -/
  | select (events : List (RelayKey × Mask))
  /-- the next callback is `accept_inbound_connection` -/
  | accept (result : Except OSError Peer)
  /-- the next callback is `handle_socket` -/
  | io (io : SocketIO)
  /-- the next callback is `_handle_wakeup`; whether it read end of file -/
  | wakeupRead (eof : Bool)
  /-- any move without a socket call -/
  | turn

/-- One move of the relay thread, and the messages it puts on `inbound`; `closeReq` is the state
of the service's close event. -/
def step (closeReq : Bool) (r : Relay) (a : RelayAction) :
    Option (Relay × List (Nat × QueuedRelayMessage)) :=
  match r.phase, a with
  | .start, .listen (.ok _) => some ({ r with phase := .top, sck := .listening }, [])
  | .start, .listen (.error e) => some ({ r with phase := .crashed (.os e) }, [])
  | .top, .turn =>
    if closeReq || r.atomicClose then some ({ r with phase := .closing }, []) else none
  | .top, .select events =>
    if !closeReq && !r.atomicClose && r.selectable events then
      some ({ r with phase := .dispatch events }, [])
    else none
  | .dispatch ((.listening, _) :: events), .accept (.ok addr) =>
    if 0 ≤ addr.2 ∧ addr.2 < 65536 then
      let out := r.acceptInboundConnection addr
      some (afterCallback out events, out.puts)
    else none
  | .dispatch ((.listening, _) :: _), .accept (.error e) =>
    some ({ r with phase := .crashed (.os e) }, [])
  | .dispatch ((.conn n, mask) :: events), .io io =>
    if r.ioAllowed n io then
      let out := r.handleSocket n mask io
      some (afterCallback out events, out.puts)
    else none
  | .dispatch ((.wakeup, _) :: events), .wakeupRead eof =>
    some ({ r with phase := .dispatch events, wakeupPending := false,
                   atomicClose := r.atomicClose || eof }, [])
  | .dispatch [], .turn => some ({ r with phase := .drain }, [])
  | .drain, .turn =>
    if closeReq || r.atomicClose then some ({ r with phase := .top }, []) else
    match r.outbound with
    | [] => some ({ r with phase := .top }, [])
    | m :: outbound =>
      let out := { r with outbound }.handleOutbound m
      some (afterOutbound out, out.puts)
  | .closing, .turn =>
    match Dict.first? r.connectionTable with
    | some addr =>
      let out := r.cleanUpConnection addr
      some (match out.raised with
        | none => out.state
        | some e => { out.state with phase := .crashed e }, out.puts)
    | none => some ({ r with phase := .closed, sck := .closed }, [])
  | _, _ => none

/-- What a step of the thread does, one case for each branch of `step`. -/
inductive RelayMoves (closeReq : Bool) (r : Relay) :
    RelayAction → Relay → List (Nat × QueuedRelayMessage) → Prop
  | listens (hp : r.phase = .start) :
      RelayMoves closeReq r (.listen (.ok ())) { r with phase := .top, sck := .listening } []
  | listenFails (hp : r.phase = .start) :
      RelayMoves closeReq r (.listen (.error e)) { r with phase := .crashed (.os e) } []
  | leaves (hp : r.phase = .top) (hc : (closeReq || r.atomicClose) = true) :
      RelayMoves closeReq r .turn { r with phase := .closing } []
  | selects (hp : r.phase = .top)
      (hc : (!closeReq && !r.atomicClose && r.selectable events) = true) :
      RelayMoves closeReq r (.select events) { r with phase := .dispatch events } []
  | accepts (hp : r.phase = .dispatch ((.listening, mask) :: events))
      (hport : 0 ≤ addr.2 ∧ addr.2 < 65536) :
      RelayMoves closeReq r (.accept (.ok addr))
        (afterCallback (r.acceptInboundConnection addr) events)
        (r.acceptInboundConnection addr).puts
  | acceptFails (hp : r.phase = .dispatch ((.listening, mask) :: events)) :
      RelayMoves closeReq r (.accept (.error e)) { r with phase := .crashed (.os e) } []
  | io (hp : r.phase = .dispatch ((.conn n, mask) :: events)) (hio : r.ioAllowed n io = true) :
      RelayMoves closeReq r (.io io) (afterCallback (r.handleSocket n mask io) events)
        (r.handleSocket n mask io).puts
  | wakeupRead (hp : r.phase = .dispatch ((.wakeup, mask) :: events)) (eof : Bool) :
      RelayMoves closeReq r (.wakeupRead eof)
        { r with phase := .dispatch events, wakeupPending := false,
                 atomicClose := r.atomicClose || eof } []
  | dispatched (hp : r.phase = .dispatch []) :
      RelayMoves closeReq r .turn { r with phase := .drain } []
  | drained (hp : r.phase = .drain)
      (hc : closeReq = true ∨ r.atomicClose = true ∨ r.outbound = []) :
      RelayMoves closeReq r .turn { r with phase := .top } []
  | handles (hp : r.phase = .drain) (hc : closeReq = false ∧ r.atomicClose = false)
      (ho : r.outbound = m :: rest) :
      RelayMoves closeReq r .turn (afterOutbound ({ r with outbound := rest }.handleOutbound m))
        ({ r with outbound := rest }.handleOutbound m).puts
  | cleansUp (hp : r.phase = .closing) (ha : Dict.first? r.connectionTable = some addr) :
      RelayMoves closeReq r .turn (match (r.cleanUpConnection addr).raised with
        | none => (r.cleanUpConnection addr).state
        | some e => { (r.cleanUpConnection addr).state with phase := .crashed e })
        (r.cleanUpConnection addr).puts
  | closes (hp : r.phase = .closing) (hnone : Dict.first? r.connectionTable = none) :
      RelayMoves closeReq r .turn { r with phase := .closed, sck := .closed } []

theorem step_moves {r r' : Relay} {closeReq : Bool} {a : RelayAction}
    {puts : List (Nat × QueuedRelayMessage)} (h : r.step closeReq a = some (r', puts)) :
    RelayMoves closeReq r a r' puts := by
  unfold step at h
  split at h
  · cases h
    exact .listens ‹_›
  · cases h
    exact .listenFails ‹_›
  · split at h <;> cases h
    exact .leaves ‹_› ‹_›
  · split at h <;> cases h
    exact .selects ‹_› ‹_›
  · split at h <;> cases h
    exact .accepts ‹_› ‹_›
  · cases h
    exact .acceptFails ‹_›
  · split at h <;> cases h
    exact .io ‹_› ‹_›
  · cases h
    exact .wakeupRead ‹_› _
  · cases h
    exact .dispatched ‹_›
  · rename_i hp
    split at h
    · rename_i hc
      cases h
      rw [Bool.or_eq_true] at hc
      exact .drained hp (hc.imp_right .inl)
    · rename_i hc
      simp only [Bool.or_eq_true, not_or, Bool.not_eq_true] at hc
      split at h <;> cases h
      · exact .drained hp (.inr (.inr ‹_›))
      · exact .handles hp hc ‹_›
  · rename_i hp
    split at h <;> cases h
    · exact .cleansUp hp ‹_›
    · exact .closes hp ‹_›
  · cases h

theorem step_drain {r r' : Relay} {closeReq : Bool} {puts : List (Nat × QueuedRelayMessage)}
    (hp : r.phase = .drain) (h : r.step closeReq .turn = some (r', puts)) :
    (r' = { r with phase := .top } ∧ puts = [] ∧
      (closeReq = true ∨ r.atomicClose = true ∨ r.outbound = [])) ∨
      ∃ m outbound, r.outbound = m :: outbound ∧ closeReq = false ∧ r.atomicClose = false ∧
        r' = afterOutbound ({ r with outbound }.handleOutbound m) ∧
        puts = ({ r with outbound }.handleOutbound m).puts := by
  cases step_moves h with
  | drained _ hc => exact .inl ⟨rfl, rfl, hc⟩
  | handles _ hc ho => exact .inr ⟨_, _, ho, hc.1, hc.2, rfl, rfl⟩
  | leaves hph | dispatched hph | cleansUp hph | closes hph => cases hp.symm.trans hph

/-! ## Construction -/

/-- The result of one `bind`, with the port of the socket when it succeeds. -/
inductive BindResult
  | bound (port : Int)
  | osError (e : OSError)
  | overflow
  deriving DecidableEq

/-- The loop over the ports of the range, on the results of its `bind` calls in order: the port
tried last and the port bound, if one was. `none`: no such results are possible. -/
def bindLoop : List Int → List BindResult → Option (Except PyError (Option (Int × Int)))
  | [], _ => some (.ok none)
  | port :: _, .bound p :: _ => if port = 0 ∨ p = port then some (.ok (some (port, p))) else none
  | _ :: ports, .osError _ :: results => bindLoop ports results
  | _ :: _, .overflow :: _ => some (.error .overflowError)
  | _ :: _, [] => none

/-- `range(lo, hi + 1)`. -/
def portsOf (lo hi : Int) : List Int := (List.range (hi + 1 - lo).toNat).map fun i => lo + i

/-- `Relay.__init__`: the relay bound to its port, or the exception raised. -/
def init (portRange : Option (Int × Int)) (results : List BindResult) :
    Option (Except PyError Relay) :=
  match portRange with
  | some (lo, hi) =>
    match bindLoop (portsOf lo hi) results with
    | none => none
    | some (.error e) => some (.error e)
    | some (.ok bound) =>
      -- `self.port` is still 0 also when port 0 itself was bound
      match bound with
      | some (port, p) =>
        if port = 0 then
          some (.error (.relayNoAvailablePort s!"no available port in range {lo}-{hi}"))
        else some (.ok { identifyingPort := p })
      | none => some (.error (.relayNoAvailablePort s!"no available port in range {lo}-{hi}"))
  | none =>
    match results with
    | .bound p :: _ => some (.ok { identifyingPort := p })
    | .osError e :: _ => some (.error (.os e))
    | .overflow :: _ => some (.error .overflowError)
    | [] => none

end Relay

end PortPort
