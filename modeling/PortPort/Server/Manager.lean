import PortPort.Common.Codec
import PortPort.Server.Relay

/-! # The relay management thread (`server/manager.py`)

`Server` is one management connection: the local variables of `relayMgmt` and the relays it has
made, numbered in the order of their construction. A move of the management thread is a return of
`select`, one callback, one turn of the receive loop, one turn of the inbound drain, or one of the
steps between which other threads run: `process_msg` starts the thread of a new relay before it
asks for the port to announce, and joins the thread of a relay it destroys. -/

namespace PortPort

/-- The file objects registered in the selector of `relayMgmt`. -/
inductive ManagerKey
  | wakeup | client
  deriving DecidableEq

/-- Where the thread stands in `relayMgmt`. -/
inductive ManagerPhase
  | top
  | dispatch (events : List (ManagerKey × Mask))
  | recvLoop
  /-- in `process_msg`, behind the start of the thread of the new relay `rid` -/
  | creating (rid : Nat)
  /-- in `process_msg`, joining the thread of `rid`, which is registered under `port` -/
  | joining (port : Int) (rid : Nat)
  /-- in the drain of `inbound_data`, with so many turns left -/
  | inboundLoop (left : Nat)
  /-- behind the loop, with the relays still to be closed -/
  | closing (relays : List Nat)
  | closed
  | crashed (e : PyError)
  deriving DecidableEq

structure Manager where
  phase : ManagerPhase := .top
  closeThread : Bool := false
  inboundData : List QueuedRelayMessage := []
  relays : Dict Int Nat := ∅
  sendq : Bytes := []
  recvq : Bytes := []
  writeEnabled : Bool := false
  /-- the events for which the management socket is registered -/
  mask : Mask := .r
  wakeupPending : Bool := false
  selectorClosed : Bool := false
  socketClosed : Bool := false
  /-- what the thread has added to the gauge `MGMT_CONNECTIONS` -/
  mgmtConnections : Int := 1
  /-- the messages appended to `sendq` since the start -/
  sendLog : List PortPortMessage := []

/-- The results of the socket calls of one `handle_relay_client`. -/
structure ClientIO where
  send : Except OSError Nat
  recv : Except OSError Bytes

/-- The bound of the drain of `inbound_data`. -/
def INBOUND_BATCH : Nat := 100

namespace Manager

def addToSendq (m : Manager) (data : Bytes) : Manager :=
  let sendq := m.sendq ++ data
  if !m.writeEnabled && sendq ≠ [] then { m with sendq, writeEnabled := true, mask := .rw }
  else { m with sendq }

/-- `add_to_sendq(msg.serialize())`. -/
def send (m : Manager) (msg : PortPortMessage) : Except PyError Manager :=
  match msg.serialize with
  | .ok data => .ok { m.addToSendq data with sendLog := m.sendLog ++ [msg] }
  | .error e => .error e

/-- The part of `handle_relay_client` behind `mask & EVENT_WRITE`. -/
def handleWrite (m : Manager) (send : Except OSError Nat) : Outcome Manager :=
  let sent : Outcome Manager := match send with
    | .ok sentLen => { state := { m with sendq := m.sendq.drop sentLen } }
    | .error .connectionReset | .error .brokenPipe => { state := { m with closeThread := true } }
    | .error .blockingIo | .error .sslWantRead | .error .sslWantWrite => { state := m }
    | .error e => { state := m, raised := some (.os e) }
  if sent.raised = none ∧ sent.state.sendq = [] then
    { state := { sent.state with writeEnabled := false, mask := .r } }
  else sent

/-- The part of `handle_relay_client` behind `mask & EVENT_READ`. -/
def handleRead (m : Manager) (recv : Except OSError Bytes) : Outcome Manager :=
  match recv with
  | .ok data =>
    { state := { m with recvq := m.recvq ++ data, closeThread := m.closeThread || data.isEmpty } }
  | .error .connectionReset | .error .brokenPipe => { state := { m with closeThread := true } }
  | .error .blockingIo | .error .sslWantRead | .error .sslWantWrite => { state := m }
  | .error e => { state := m, raised := some (.os e) }

def handleRelayClient (m : Manager) (mask : Mask) (io : ClientIO) : Outcome Manager :=
  let out : Outcome Manager :=
    if mask.write && m.sendq ≠ [] then m.handleWrite io.send else { state := m }
  if out.raised = none ∧ mask.read then out.state.handleRead io.recv else out

/-- The frame that announces an item of `inbound_data` to the client. -/
def frameOf (q : QueuedRelayMessage) : PortPortMessage :=
  match q.kind with
  | .message =>
    { msgType := .data, addr := q.addr, port := q.port, relayPort := q.relayPort, data := q.data }
  | .newConnection =>
    { msgType := .newConnection, addr := q.addr, port := q.port, relayPort := q.relayPort }
  | .closeConnection =>
    { msgType := .closeConnection, addr := q.addr, port := q.port, relayPort := q.relayPort }

/-- One turn of the drain of `inbound_data`. -/
def inboundTurn (m : Manager) (left : Nat) : Manager :=
  if left = 0 || m.closeThread then { m with phase := .top } else
  match m.inboundData with
  | [] => { m with phase := .top }
  | q :: inboundData =>
    match { m with inboundData }.send (frameOf q) with
    | .ok m => { m with phase := .inboundLoop (left - 1) }
    | .error _ => { m with inboundData, closeThread := true, phase := .top }

/-- The events `select` may return. -/
def selectable (m : Manager) (events : List (ManagerKey × Mask)) : Bool :=
  (events.map Prod.fst).Nodup && events.all fun (key, mask) =>
    match key with
    | .wakeup => mask = .r
    | .client => mask.le m.mask

end Manager

structure Server where
  mgr : Manager
  relay : Nat → Relay
  nrelays : Nat
  /-- the messages each relay has put on `inbound_data` since its start -/
  enqueued : Nat → List QueuedRelayMessage := fun _ => []
  portRange : Option (Int × Int) := none
  closeService : Bool := false

namespace Server
open Relay (BindResult)

def setRelay (s : Server) (rid : Nat) (r : Relay) : Server :=
  { s with relay := Function.update s.relay rid r }

def withMgr (s : Server) (m : Manager) : Server := { s with mgr := m }

def goto (s : Server) (p : ManagerPhase) : Server := s.withMgr { s.mgr with phase := p }

@[simp] theorem setRelay_relay (s : Server) (rid : Nat) (r : Relay) (i : Nat) :
    (s.setRelay rid r).relay i = Function.update s.relay rid r i := rfl
@[simp] theorem setRelay_mgr (s : Server) (rid : Nat) (r : Relay) :
    (s.setRelay rid r).mgr = s.mgr := rfl
@[simp] theorem withMgr_relay (s : Server) (m : Manager) : (s.withMgr m).relay = s.relay := rfl
@[simp] theorem goto_relay (s : Server) (p : ManagerPhase) : (s.goto p).relay = s.relay := rfl
@[simp] theorem withMgr_mgr (s : Server) (m : Manager) : (s.withMgr m).mgr = m := rfl

/-- Leave the receive loop for the drain of `inbound_data`. -/
def breakRecv (s : Server) : Server := s.goto (.inboundLoop INBOUND_BATCH)

/-- The `except` clauses of the receive loop. Only the bare one breaks out of it. -/
def recvExcept (s : Server) (e : PyError) : Server :=
  let killed (err : PortPortErrorTypes) : Server :=
    match s.mgr.send { msgType := .error, error := err } with
    | .ok m => s.withMgr { m with phase := .recvLoop, closeThread := true }
    | .error e => s.goto (.crashed e)
  match e with
  | .portPortBadVersion _ => killed .invalidMsgVersion
  | .portPortUnsupportedMsgType _ => killed .unknownMsgType
  | _ => s.breakRecv

/-- `add_to_sendq(msg.serialize())` as the last statement of `process_msg`. -/
def reply (s : Server) (msg : PortPortMessage) : Server :=
  match s.mgr.send msg with
  | .ok m => s.withMgr { m with phase := .recvLoop }
  | .error e => s.recvExcept e

/-- `process_msg` up to its end, or to the point where it lets other threads run. `results` are
the results of the `bind` calls of a new relay; `none`: they are not possible. -/
def processMsg (s : Server) (msg : PortPortMessage) (results : List BindResult) : Option Server :=
  match msg.msgType with
  | .createRelay =>
    match Relay.init s.portRange results with
    | none => none
    | some (.ok r) =>
      let mgr := { s.mgr with
        relays := s.mgr.relays.set r.identifyingPort s.nrelays, phase := .creating s.nrelays }
      some { s.setRelay s.nrelays r with mgr, nrelays := s.nrelays + 1 }
    | some (.error (.relayNoAvailablePort _)) =>
      some (s.reply { msgType := .error, error := .relayFailurePortExhaustion })
    | some (.error e) => some (s.recvExcept e)
  | .closeConnection =>
    match s.mgr.relays.lookup msg.relayPort with
    | some rid =>
      let q := ⟨.closeConnection, msg.addr, msg.port, [], msg.relayPort⟩
      some ((s.setRelay rid ((s.relay rid).enqueueOutbound q)).goto .recvLoop)
    | none => some (s.recvExcept .keyError)
  | .destroyRelay =>
    match s.mgr.relays.lookup msg.relayPort with
    | some rid =>
      some ((s.setRelay rid { s.relay rid with atomicClose := true }).goto
        (.joining msg.relayPort rid))
    | none => some (s.goto .recvLoop)
  | .data =>
    match s.mgr.relays.lookup msg.relayPort with
    | some rid =>
      let q := ⟨.message, msg.addr, msg.port, msg.data, msg.relayPort⟩
      some ((s.setRelay rid ((s.relay rid).enqueueOutbound q)).goto .recvLoop)
    | none => some (s.reply { msgType := .error, error := .relayDoesNotExist })
  | _ => some (s.goto .recvLoop)

/-- One turn of `while len(recvq) > 0`. -/
def recvTurn (s : Server) (results : List BindResult) : Option Server :=
  if s.mgr.recvq = [] then some s.breakRecv else
  match grabMsg s.mgr.recvq with
  | .ok (msg, recvq) => (s.withMgr { s.mgr with recvq }).processMsg msg results
  | .error e => some (s.recvExcept e)

/-- `process_msg` of CREATE_RELAY behind the start of the relay's thread. -/
def announce (s : Server) (rid : Nat) : Server :=
  match (s.relay rid).getPort with
  | .ok port => s.reply { msgType := .openRelay, relayPort := port }
  | .error e => s.recvExcept e

/-- `process_msg` of DESTROY_RELAY behind `join`. -/
def destroyed (s : Server) (port : Int) : Server :=
  (s.withMgr { s.mgr with relays := s.mgr.relays.erase port }).reply
    { msgType := .destroyRelay, relayPort := port }

/-- Some other relay than `rid` listens on the port. -/
def portListening (s : Server) (rid : Nat) (port : Int) : Bool :=
  (List.range s.nrelays).any fun i =>
    i ≠ rid && (s.relay i).sck = .listening && (s.relay i).identifyingPort = port

/-- A `bind` result the kernel may give: a port that no socket of this server listens on. -/
def bindAllowed (s : Server) : BindResult → Bool
  | .bound p => 0 < p && p < 65536 && !s.portListening s.nrelays p
  | .osError _ | .overflow => true

inductive ManagerAction
  | select (events : List (ManagerKey × Mask))
  | clientIo (io : ClientIO)
  | wakeupRead (eof : Bool)
  | recvTurn (results : List BindResult)
  | turn

/-- The thread of the relay has ended. -/
def joined (s : Server) (rid : Nat) : Bool :=
  match (s.relay rid).phase with
  | .closed | .crashed _ => true
  | _ => false

/-- One move of the management thread. -/
def mgrStep (s : Server) (a : ManagerAction) : Option Server :=
  match s.mgr.phase, a with
  | .top, .turn =>
    if s.closeService || s.mgr.closeThread then
      some (s.goto (.closing (s.mgr.relays.entries.reverse.map (·.2))))
    else none
  | .top, .select events =>
    if !s.closeService && !s.mgr.closeThread && s.mgr.selectable events then
      some (s.goto (.dispatch events))
    else none
  | .dispatch ((.client, mask) :: events), .clientIo io =>
    if sendAllowed io.send s.mgr.sendq && recvAllowed io.recv then
      let out := s.mgr.handleRelayClient mask io
      some (s.withMgr { out.state with phase := match out.raised with
        | none => .dispatch events
        | some e => .crashed e })
    else none
  | .dispatch ((.wakeup, _) :: events), .wakeupRead eof =>
    some (s.withMgr { s.mgr with
      phase := .dispatch events, wakeupPending := false, closeThread := s.mgr.closeThread || eof })
  | .dispatch [], .turn => some (s.goto .recvLoop)
  | .recvLoop, .recvTurn results => if results.all s.bindAllowed then s.recvTurn results else none
  | .creating rid, .turn => some (s.announce rid)
  | .joining port rid, .turn => if s.joined rid then some (s.destroyed port) else none
  | .inboundLoop left, .turn => some (s.withMgr (s.mgr.inboundTurn left))
  | .closing (rid :: rids), .turn =>
    -- `join(timeout=2.0)` gives up on a thread that does not end
    some ((s.setRelay rid { s.relay rid with atomicClose := true }.wakeup).goto (.closing rids))
  | .closing [], .turn =>
    some (s.withMgr { s.mgr with
      phase := .closed, selectorClosed := true, socketClosed := true
      mgmtConnections := s.mgr.mgmtConnections - 1 })
  | _, _ => none

/-- The relay `rid` has become `r` and has put these messages on `inbound_data`. -/
def relayMoved (s : Server) (rid : Nat) (r : Relay) (puts : List (Nat × QueuedRelayMessage)) :
    Server :=
  { s.setRelay rid r with
    mgr := { s.mgr with
      inboundData := s.mgr.inboundData ++ puts.map Prod.snd
      wakeupPending := s.mgr.wakeupPending || !puts.isEmpty }
    enqueued := Function.update s.enqueued rid (s.enqueued rid ++ puts.map Prod.snd) }

@[simp] theorem relayMoved_relay (s : Server) (rid : Nat) (r : Relay)
    (puts : List (Nat × QueuedRelayMessage)) (i : Nat) :
    (s.relayMoved rid r puts).relay i = Function.update s.relay rid r i := rfl

/-- `listen` fails while another relay listens on the port. -/
def listenBlocked (s : Server) (rid : Nat) : Relay.RelayAction → Bool
  | .listen (.ok _) => s.portListening rid (s.relay rid).identifyingPort
  | _ => false

/-- One move of the thread of relay `rid`. -/
def relayStep (s : Server) (rid : Nat) (a : Relay.RelayAction) :
    Option (Server × List (Nat × QueuedRelayMessage)) :=
  if rid < s.nrelays && !s.listenBlocked rid a then
    ((s.relay rid).step s.closeService a).map fun (r, puts) => (s.relayMoved rid r puts, puts)
  else none

theorem relayStep_cases {s s' : Server} {rid : Nat} {a : Relay.RelayAction}
    {puts : List (Nat × QueuedRelayMessage)} (h : s.relayStep rid a = some (s', puts)) :
    rid < s.nrelays ∧ s.listenBlocked rid a = false ∧
      ∃ r, (s.relay rid).step s.closeService a = some (r, puts) ∧ s' = s.relayMoved rid r puts := by
  unfold relayStep at h
  split at h
  · rename_i hg
    obtain ⟨⟨r, puts'⟩, hr, he⟩ := Option.map_eq_some_iff.mp h
    cases he
    simp only [Bool.and_eq_true, decide_eq_true_eq, Bool.not_eq_true'] at hg
    exact ⟨hg.1, hg.2, r, hr, rfl⟩
  · cases h

end Server

end PortPort
