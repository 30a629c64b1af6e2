import PortPort.Server.AcceptLoop
import PortPort.System.Handshake

/-! # A connection from its first byte on

The composed system starts behind the handshake. Here its two ends come to this state: the client
runs `create_remote_proxy` up to its loop, the accepting thread of the server runs
`add_to_conn_table` and starts the thread of `relayMgmt`, and both streams begin empty. -/

namespace PortPort
open PortPortMessage BigEndian

/-- Where the client stands in `create_remote_proxy`. -/
inductive HelloPhase
  | sendAuth | authReply | sendCreate | openReply
  /-- it has set the close event and returned -/
  | gaveUp
  /-- in its loop -/
  | entered
  deriving DecidableEq

/-- Where the server stands with the newcomer. -/
inductive DoorPhase
  | listening
  /-- its socket has been closed, or the accepting thread has ended -/
  | refused
  /-- the thread of `relayMgmt` has been started for it -/
  | serving
  deriving DecidableEq

structure Connection where
  mgmt : MgmtServer
  auth : String
  skipAuth : Bool
  hello : HelloPhase
  door : DoorPhase := .listening
  /-- the results of the socket calls of the client's handshake so far -/
  io : HandshakeIO := { data := .ok [] }
  /-- the port that OPEN_RELAY has told the client -/
  remotePort : Int := 0
  /-- what `grab_msg` has left behind OPEN_RELAY, which is not kept -/
  lost : Bytes := []
  /-- the streams, the threads of the server once it serves, and those of the client once it is in
  its loop -/
  sys : System

/-- The bytes that `recv` returns where it is called without a size, at most. -/
def HELLO_RECV_SIZE : Nat := 1024

namespace Connection

inductive Event
  /-- `sendall` of the client returns, or it fails with so many bytes sent -/
  | sendall (result : Except OSError Unit) (n : Nat)
  | recv (result : Except OSError Bytes)
  /-- the server accepts the client; its `sendall` may fail with so many bytes sent -/
  | newcomer (io : NewcomerIO) (n : Nat)
  | session (a : System.Action)
  /-- a move of a relay that is not the first of this connection -/
  | otherRelay (rid : Nat) (a : Relay.RelayAction)

/-- What `sendall(data)` puts on the stream. -/
def sentAll (data : Bytes) (result : Except OSError Unit) (n : Nat) : Bytes :=
  match result with
  | .ok _ => data
  | .error _ => data.take n

def received (result : Except OSError Bytes) : Bytes :=
  match result with
  | .ok data => data
  | .error _ => []

/-- `sendall(msg.serialize())` in the handshake. -/
def helloSend (c : Connection) (msg : PortPortMessage) (result : Except OSError Unit) (n : Nat)
    (next : HelloPhase) : Connection :=
  match msg.serialize with
  | .error _ => { c with hello := .gaveUp }
  | .ok data => { c with
      hello := match result with
        | .ok _ => next
        | .error _ => .gaveUp
      sys := { c.sys with up := c.sys.up ++ sentAll data result n } }

def sendall (c : Connection) (result : Except OSError Unit) (n : Nat) : Option Connection :=
  match c.hello with
  | .sendAuth =>
    let c := { c with io := { c.io with sendAuth := result } }
    some (c.helloSend { msgType := .auth, auth := c.auth } result n .authReply)
  | .sendCreate =>
    let c := { c with io := { c.io with sendCreate := result } }
    some (c.helloSend { msgType := .createRelay } result n .openReply)
  | _ => none

/-- The client goes on behind the reply to AUTH. -/
def authReplied (c : Connection) (result : Except PyError Unit) : Connection :=
  match result with
  | .error _ => { c with hello := .gaveUp }
  | .ok _ => { c with hello := .sendCreate }

/-- The client goes on behind the reply to CREATE_RELAY. -/
def openReplied (c : Connection) (start : Option RemoteRun)
    (result : Except PyError (PortPortMessage × Bytes)) : Connection :=
  match start with
  | none => { c with hello := .gaveUp }
  | some start => { c with
      hello := .entered
      remotePort := start.client.proxy.remotePort
      lost := match result with
        | .ok (_, data) => data
        | .error _ => []
      sys := { c.sys with client := { start.client with close := c.sys.client.close } } }

def recv (c : Connection) (result : Except OSError Bytes) : Option Connection :=
  let sys := { c.sys with down := c.sys.down.drop (received result).length }
  if received result <+: c.sys.down ∧ (received result).length ≤ HELLO_RECV_SIZE then
    match c.hello with
    | .authReply =>
      let io := { c.io with authReply := result }
      some ({ c with io, sys }.authReplied (authenticate c.auth io))
    | .openReply =>
      let io := { c.io with data := result }
      some ({ c with io, sys }.openReplied (handshake c.auth c.skipAuth io)
        (requestRelay c.auth c.skipAuth io))
    | _ => none
  else none

/-- The bytes that `add_to_conn_table` takes off the newcomer's stream. -/
def readBy (mgmt : MgmtServer) (io : NewcomerIO) : Bytes :=
  match io.accept, io.wrap with
  | .ok _, .ok _ => if mgmt.authBypass then [] else received io.recv
  | _, _ => []

def newcomer (c : Connection) (io : NewcomerIO) (n : Nat) : Option Connection :=
  let read := readBy c.mgmt io
  if c.door = .listening ∧ recvAllowed io.recv ∧ read <+: c.sys.up then
    let after := c.mgmt.addToConnTable .r io
    some { c with
      mgmt := after.state
      door := if after.started then .serving else .refused
      sys := { c.sys with
        up := c.sys.up.drop read.length
        down := c.sys.down ++ sentAll (after.sent.flatMap encode) io.sendall n } }
  else none

/-- The thread whose move it is has been started. The close events may be set at any time. -/
def runs (c : Connection) : System.Action → Bool
  | .mgr _ | .relay _ => c.door = .serving
  | .remote _ | .proxy _ => c.hello = .entered
  | .serverShutdown | .clientShutdown => true

def step (c : Connection) : Event → Option Connection
  | .sendall result n => c.sendall result n
  | .recv result => c.recv result
  | .newcomer io n => c.newcomer io n
  | .session a => if c.runs a then (System.step c.sys a).map fun sys => { c with sys } else none
  | .otherRelay rid a =>
    if c.door = .serving ∧ rid ≠ 0 then
      (c.sys.server.relayStep rid a).map fun (server, _) =>
        { c with sys := { c.sys with server } }
    else none

/-- The server listens, and the client has connected to it. -/
def start (mgmt : MgmtServer) (portRange : Option (Int × Int)) (auth : String) (skipAuth : Bool) :
    Connection where
  mgmt
  auth
  skipAuth
  hello := if skipAuth = false then .sendAuth else .sendCreate
  sys :=
    { server := (ManagerRun.start portRange).server
      client := { remote := {}, proxy := { remotePort := 0 } } }

def Init (c : Connection) : Prop := ∃ mgmt portRange auth skipAuth,
  c = start mgmt portRange auth skipAuth

/-- "The auth packet is small enough it shouldn't get fragmented": the `recv` that reads it returns
all that the client has sent. -/
def wholeAuth (c : Connection) : Event → Bool
  | .newcomer io _ =>
    match io.recv with
    | .ok data => c.mgmt.authBypass || data = c.sys.up
    | .error _ => true
  | _ => true

/-- Every address that `accept` of the relay returns meets the condition `C`. -/
def OnAccept (C : Relay → Peer → Prop) (c : Connection) (e : Event) : Prop :=
  ∀ addr, e = .session (.relay (.accept (.ok addr))) → C c.sys.relay addr

/-- Reachable by steps that read AUTH whole and whose accepts meet the condition `C`. -/
abbrev Reachable (C : Relay → Peer → Prop) : Connection → Prop :=
  Transition.Reach (Transition.Fires step) (fun c e => c.wholeAuth e ∧ OnAccept C c e) Init

/-- The two ends agree on whether to authenticate, and the server's token is what the client's AUTH
frame announces of its own. -/
def Authorized (c : Connection) : Prop := c.mgmt.authBypass = c.skipAuth ∧
  (c.skipAuth = false → (encodeUtf8 c.auth).take c.auth.length = encodeUtf8 c.mgmt.authToken)

/-! ## The steps of the handshake -/

/-- The AUTH frame of a token. -/
def authFrame (auth : String) : Bytes :=
  headerBytes .auth ++ (toBE 2 auth.length ++ encodeUtf8 auth)

def CREATE_RELAY : PortPortMessage := { msgType := .createRelay }

theorem wellFormed_createRelay : WellFormed CREATE_RELAY :=
  ⟨rfl, trivial, rfl, by simp [CREATE_RELAY]⟩

variable {c c' : Connection}

/-- The client has sent a message of the handshake, or it has given up. -/
inductive Sends (c : Connection) : Connection → Prop
  | auth (hp : c.hello = .sendAuth) (hfits : c.auth.length < 256 ^ 2) (io : HandshakeIO) :
      Sends c { c with
        io, hello := .authReply, sys := { c.sys with up := c.sys.up ++ authFrame c.auth } }
  | create (hp : c.hello = .sendCreate) (io : HandshakeIO) :
      Sends c { c with
        io, hello := .openReply, sys := { c.sys with up := c.sys.up ++ encode CREATE_RELAY } }
  | fails (hp : c.hello ≠ .entered) (io : HandshakeIO) (up : Bytes) :
      Sends c { c with io, hello := .gaveUp, sys := { c.sys with up } }

theorem helloSend_cases (msg : PortPortMessage) (result : Except OSError Unit) (n : Nat)
    (next : HelloPhase) :
    (∃ up, c.helloSend msg result n next = { c with hello := .gaveUp, sys := { c.sys with up } }) ∨
    ∃ frame, msg.serialize = .ok frame ∧ c.helloSend msg result n next =
      { c with hello := next, sys := { c.sys with up := c.sys.up ++ frame } } := by
  unfold helloSend
  split
  · exact .inl ⟨_, rfl⟩
  · cases result with
    | ok _ => exact .inr ⟨_, ‹_›, rfl⟩
    | error e => exact .inl ⟨_, rfl⟩

theorem sendall_sends {result : Except OSError Unit} {n : Nat}
    (h : c.sendall result n = some c') : Sends c c' := by
  unfold sendall at h
  split at h
  · rename_i hp
    obtain rfl := Option.some.inj h
    rcases helloSend_cases _ result n _ with ⟨up, he⟩ | ⟨frame, hser, he⟩
    · rw [he]
      exact .fails (by simp [hp]) _ _
    · obtain ⟨hfits, rfl⟩ := (serialize_iff (m := { msgType := .auth, auth := c.auth }) rfl).mp hser
      rw [he]
      exact .auth hp hfits _
  · rename_i hp
    obtain rfl := Option.some.inj h
    rcases helloSend_cases _ result n _ with ⟨up, he⟩ | ⟨frame, hser, he⟩
    · rw [he]
      exact .fails (by simp [hp]) _ _
    · rw [show ({ msgType := .createRelay } : PortPortMessage) = CREATE_RELAY from rfl,
        wellFormed_createRelay.serialize] at hser
      cases hser
      rw [he]
      exact .create hp _
  · cases h

theorem authenticate_inv {auth : String} {io : HandshakeIO} {u : Unit}
    (h : authenticate auth io = .ok u) : ∃ data m rest, io.authReply = .ok data ∧
      grabMsg data = .ok (m, rest) ∧ m.msgType = .authSuccess := by
  unfold authenticate at h
  obtain ⟨-, -, h⟩ := bind_eq_ok.mp h
  obtain ⟨-, -, h⟩ := bind_eq_ok.mp h
  obtain ⟨data, hdata, h⟩ := bind_eq_ok.mp h
  obtain ⟨⟨m, rest⟩, hgrab, h⟩ := bind_eq_ok.mp h
  refine ⟨data, m, rest, ?_, hgrab, ?_⟩
  · cases hr : io.authReply with
    | ok b => rw [hr] at hdata; cases hdata; rfl
    | error e => rw [hr] at hdata; cases hdata
  · by_cases ht : m.msgType = .authSuccess
    · exact ht
    · simp [ht, throw, throwThe, MonadExceptOf.throw] at h

theorem requestRelay_inv {auth : String} {skipAuth : Bool} {io : HandshakeIO}
    {x : PortPortMessage × Bytes} (h : requestRelay auth skipAuth io = .ok x) :
    ∃ data, io.data = .ok data ∧ grabMsg data = .ok x := by
  have hlast {u : Except PyError Unit} (h : (u >>= fun _ => do
      let _ ← ({ msgType := .createRelay } : PortPortMessage).serialize
      io.sendCreate.mapError .os
      let data ← io.data.mapError .os
      grabMsg data) = .ok x) : ∃ data, io.data = .ok data ∧ grabMsg data = .ok x := by
    obtain ⟨-, -, h⟩ := bind_eq_ok.mp h
    obtain ⟨-, -, h⟩ := bind_eq_ok.mp h
    obtain ⟨-, -, h⟩ := bind_eq_ok.mp h
    obtain ⟨data, hdata, hgrab⟩ := bind_eq_ok.mp h
    cases hr : io.data with
    | ok b => rw [hr] at hdata; cases hdata; exact ⟨_, rfl, hgrab⟩
    | error e => rw [hr] at hdata; cases hdata
  unfold requestRelay at h
  split at h
  · exact hlast h
  · exact hlast (u := .ok ()) h

theorem handshake_inv {auth : String} {skipAuth : Bool} {io : HandshakeIO} {start : RemoteRun}
    (h : handshake auth skipAuth io = some start) : ∃ data m rest, io.data = .ok data ∧
      grabMsg data = .ok (m, rest) ∧ m.msgType = .openRelay ∧ start = .start m.relayPort ∧
        requestRelay auth skipAuth io = .ok (m, rest) := by
  unfold handshake at h
  split at h
  · cases h
  · rename_i m rest hreq
    rw [Option.ite_none_right_eq_some] at h
    obtain ⟨ht, h⟩ := h
    obtain ⟨data, hdata, hgrab⟩ := requestRelay_inv hreq
    exact ⟨data, m, rest, hdata, hgrab, ht, (Option.some.inj h).symm, hreq⟩

/-- The client has taken a reply off the stream that it goes on with, or it has given up. -/
inductive Receives (c : Connection) : Connection → Prop
  | auth (hp : c.hello = .authReply) (hreply : reply <+: c.sys.down)
      (hgrab : grabMsg reply = .ok (m, rest)) (ht : m.msgType = .authSuccess) (io : HandshakeIO) :
      Receives c { c with
        io, hello := .sendCreate, sys := { c.sys with down := c.sys.down.drop reply.length } }
  | enters (hp : c.hello = .openReply) (hreply : reply <+: c.sys.down)
      (hgrab : grabMsg reply = .ok (m, rest)) (ht : m.msgType = .openRelay) (io : HandshakeIO) :
      Receives c { c with
        io, hello := .entered, remotePort := m.relayPort, lost := rest
        sys := { c.sys with
          down := c.sys.down.drop reply.length
          client := { (RemoteRun.start m.relayPort).client with close := c.sys.client.close } } }
  | fails (hp : c.hello ≠ .entered) (io : HandshakeIO) (down : Bytes) :
      Receives c { c with io, hello := .gaveUp, sys := { c.sys with down } }

theorem recv_receives {result : Except OSError Bytes} (h : c.recv result = some c') :
    Receives c c' := by
  unfold recv at h
  rw [Option.ite_none_right_eq_some] at h
  obtain ⟨⟨hdata, -⟩, h⟩ := h
  split at h
  · rename_i hp
    obtain rfl := Option.some.inj h
    generalize hio : ({ c.io with authReply := result } : HandshakeIO) = io
    cases hauth : authenticate c.auth io with
    | error e => exact .fails (by simp [hp]) _ _
    | ok u =>
      obtain ⟨data, m, rest, hreply, hgrab, ht⟩ := authenticate_inv hauth
      subst hio
      cases hreply
      exact .auth hp hdata hgrab ht _
  · rename_i hp
    obtain rfl := Option.some.inj h
    generalize hio : ({ c.io with data := result } : HandshakeIO) = io
    cases hstart : handshake c.auth c.skipAuth io with
    | none => exact .fails (by simp [hp]) _ _
    | some start =>
      obtain ⟨data, m, rest, hreply, hgrab, ht, rfl, hreq⟩ := handshake_inv hstart
      rw [hreq]
      subst hio
      cases hreply
      exact .enters hp hdata hgrab ht _
  · cases h

/-! ## The newcomer -/

theorem authenticate_sent_length (s : MgmtServer) (io : NewcomerIO) :
    ((s.authenticate io).1.flatMap encode).length ≤ 4 := by
  unfold MgmtServer.authenticate
  split
  · exact Nat.zero_le _
  split
  · exact Nat.zero_le _
  split
  · exact Nat.zero_le _
  split
  · exact Nat.le_refl 4
  · exact Nat.le_succ 3

/-- What one call of `add_to_conn_table` does for a newcomer. -/
inductive Greeting (s : MgmtServer) (io : NewcomerIO) : Newcomer → Prop
  | refuses (hsent : (sent.flatMap encode).length ≤ 4) (closed : Bool)
      (raised : Option PyError) : Greeting s io { state := s, sent, closed, raised }
  | bypasses (ha : io.accept = .ok peer) (hw : io.wrap = .ok ()) (hb : s.authBypass = true) :
      Greeting s io (s.spinOff peer [])
  | admits (ha : io.accept = .ok peer) (hw : io.wrap = .ok ()) (hb : s.authBypass = false)
      (hok : (s.authenticate io).2 = .ok ()) : Greeting s io (s.spinOff peer [AUTH_SUCCESS])

theorem addToConnTable_greeting (s : MgmtServer) (io : NewcomerIO) :
    Greeting s io (s.addToConnTable .r io) := by
  have hnil : (([] : List PortPortMessage).flatMap encode).length ≤ 4 := Nat.zero_le _
  unfold MgmtServer.addToConnTable
  rw [if_pos (show Mask.r.read = true from rfl)]
  split
  · exact .refuses hnil _ _
  split
  · exact .refuses hnil _ _
  · exact .refuses hnil _ _
  · exact .refuses hnil _ _
  · exact .refuses hnil _ _
  split
  · exact .bypasses ‹_› ‹_› ‹_›
  · rename_i hb
    split
    · rename_i sent u hauth
      have hok : (s.authenticate io).2 = .ok () := congrArg Prod.snd hauth
      have hsent : sent = [AUTH_SUCCESS] :=
        (congrArg Prod.fst hauth).symm.trans (MgmtServer.authenticate_sent hok)
      subst hsent
      exact .admits ‹_› ‹_› (Bool.not_eq_true _ ▸ hb) hok
    · rename_i sent e hauth
      have hsent := authenticate_sent_length s io
      rw [hauth] at hsent
      exact .refuses hsent _ _

/-- The server admits the newcomer or refuses it. -/
inductive Greets (c : Connection) (io : NewcomerIO) : Connection → Prop
  | refuses (up : Bytes) (hsent : sent.length ≤ 4) :
      Greets c io { c with
        door := .refused, sys := { c.sys with up, down := c.sys.down ++ sent } }
  | bypasses (hb : c.mgmt.authBypass = true) (connectionTable : Dict Peer Nat) (nthreads : Nat) :
      Greets c io { c with
        door := .serving, mgmt := { c.mgmt with connectionTable, nthreads } }
  | admits (hb : c.mgmt.authBypass = false) (hrecv : io.recv = .ok frame)
      (hdec : deserialize frame = .ok (m, rest)) (ht : m.msgType = .auth)
      (ha : m.auth = c.mgmt.authToken) (connectionTable : Dict Peer Nat) (nthreads : Nat) :
      Greets c io { c with
        door := .serving, mgmt := { c.mgmt with connectionTable, nthreads }
        sys := { c.sys with
          up := c.sys.up.drop frame.length, down := c.sys.down ++ encode AUTH_SUCCESS } }

theorem sentAll_length (bytes : Bytes) (result : Except OSError Unit) (n : Nat) :
    (sentAll bytes result n).length ≤ bytes.length := by
  unfold sentAll
  split
  · exact Nat.le_refl _
  · exact List.length_take_le' ..

theorem newcomer_greets {io : NewcomerIO} {n : Nat} (h : c.newcomer io n = some c') :
    c.door = .listening ∧ Greets c io c' := by
  unfold newcomer at h
  rw [Option.ite_none_right_eq_some] at h
  obtain ⟨⟨hdoor, -, -⟩, h⟩ := h
  refine ⟨hdoor, ?_⟩
  obtain rfl := Option.some.inj h
  have hgreeting := addToConnTable_greeting c.mgmt io
  generalize c.mgmt.addToConnTable .r io = after at hgreeting
  cases hgreeting with
  | refuses hsent => exact .refuses _ (Nat.le_trans (sentAll_length ..) hsent)
  | bypasses ha hw hb =>
    have hread : readBy c.mgmt io = [] := by simp [readBy, ha, hw, hb]
    have hsent : sentAll [] io.sendall n = [] := by cases io.sendall <;> simp [sentAll]
    simp only [hread, MgmtServer.spinOff, List.flatMap_nil, hsent, List.append_nil,
      List.length_nil, List.drop_zero, if_true]
    exact .bypasses hb _ _
  | admits ha hw hb hok =>
    obtain ⟨frame, m, rest, hrecv, hdec, ht, hauth, hsendall⟩ :=
      MgmtServer.authenticate_ok_iff.mp hok
    have hread : readBy c.mgmt io = frame := by simp [readBy, ha, hw, hb, hrecv, received]
    simp only [hread, MgmtServer.spinOff, hsendall, sentAll, List.flatMap_singleton, if_true]
    exact .admits hb hrecv hdec ht hauth _ _

/-! ## All steps -/

/-- What a step does, one case for each thread that may take it. -/
inductive Moves (c : Connection) : Event → Connection → Prop
  | sends (h : Sends c d) : Moves c (.sendall result n) d
  | receives (h : Receives c d) : Moves c (.recv result) d
  | greets (hd : c.door = .listening) (h : Greets c calls d) : Moves c (.newcomer calls n) d
  | mgr (hd : c.door = .serving) (hs : c.sys.mgrStep a = some t) :
      Moves c (.session (.mgr a)) { c with sys := t }
  | relay (hd : c.door = .serving) (hs : c.sys.relayStep a = some t) :
      Moves c (.session (.relay a)) { c with sys := t }
  | remote (he : c.hello = .entered) (hs : c.sys.remoteStep a = some t) :
      Moves c (.session (.remote a)) { c with sys := t }
  | proxy (he : c.hello = .entered) (hs : c.sys.proxyStep a = some t) :
      Moves c (.session (.proxy a)) { c with sys := t }
  | serverShutdown : Moves c (.session .serverShutdown)
      { c with sys := { c.sys with server := { c.sys.server with closeService := true } } }
  | clientShutdown : Moves c (.session .clientShutdown)
      { c with sys := { c.sys with client := { c.sys.client with close := true } } }
  | otherRelay (hd : c.door = .serving) (hrid : rid ≠ 0)
      (hs : c.sys.server.relayStep rid a = some (server, puts)) :
      Moves c (.otherRelay rid a) { c with sys := { c.sys with server } }

theorem step_moves {e : Event} (h : c.step e = some c') : Moves c e c' := by
  cases e with
  | sendall result n => exact .sends (sendall_sends h)
  | recv result => exact .receives (recv_receives h)
  | newcomer io n =>
    obtain ⟨hd, hg⟩ := newcomer_greets h
    exact .greets hd hg
  | session a =>
    simp only [step, Option.ite_none_right_eq_some, Option.map_eq_some_iff] at h
    obtain ⟨hr, sys, hs, rfl⟩ := h
    cases a with
    | mgr a => exact .mgr (by simpa [runs] using hr) hs
    | relay a => exact .relay (by simpa [runs] using hr) hs
    | remote a => exact .remote (by simpa [runs] using hr) hs
    | proxy a => exact .proxy (by simpa [runs] using hr) hs
    | serverShutdown =>
      cases hs
      exact .serverShutdown
    | clientShutdown =>
      cases hs
      exact .clientShutdown
  | otherRelay rid a =>
    simp only [step, Option.ite_none_right_eq_some, Option.map_eq_some_iff] at h
    obtain ⟨⟨hd, hrid⟩, ⟨server, puts⟩, hs, rfl⟩ := h
    exact .otherRelay hd hrid hs

end Connection
end PortPort
