import PortPort.Server.FramesSent
import PortPort.Server.PortRange
import PortPort.Server.Routing
import PortPort.Server.ThreadsEnd
import PortPort.System.Announcement
import PortPort.System.Connection

/-! # The stages of a connection

A connection waits for the server to accept the client, is refused or admitted, asks for a relay,
and is told its port. From the start of the relay on, a state of the composed system goes along with
it. -/

namespace PortPort
open PortPortMessage
open Server (ManagerAction)

/-! ## Replies -/

theorem reply_authSuccess {reply rest : Bytes} {m : PortPortMessage}
    (h : grabMsg reply = .ok (m, rest)) (ht : m.msgType = .authSuccess) :
    reply = encode AUTH_SUCCESS ++ rest := by
  have hreply := frames_dec_eq (by simp [ht]) (grabMsg?_eq_some.mpr h)
  have henc : encode m = encode AUTH_SUCCESS := by simp [encode, ht, fieldBytes, AUTH_SUCCESS]
  rw [hreply, henc]

theorem reply_openRelay {reply rest : Bytes} {m : PortPortMessage}
    (h : grabMsg reply = .ok (m, rest)) (ht : m.msgType = .openRelay) :
    m = OPEN_RELAY m.relayPort ∧ reply = encode m ++ rest := by
  have hne : m.msgType ≠ .auth := by simp [ht]
  obtain ⟨hv, -, hc, -⟩ := WellFormed.of_deserialize hne h
  refine ⟨?_, frames_dec_eq hne (grabMsg?_eq_some.mpr h)⟩
  simp only [PortPortMessage.carried, ht, hv] at hc
  exact hc.symm

theorem encode_openRelay_length (p : Int) : (encode (OPEN_RELAY p)).length = 5 := by
  simp [encode, OPEN_RELAY, fieldBytes, headerBytes]

theorem openRelay_length {reply rest : Bytes} {m : PortPortMessage}
    (h : grabMsg reply = .ok (m, rest)) (ht : m.msgType = .openRelay) : 5 ≤ reply.length := by
  obtain ⟨hm, hreply⟩ := reply_openRelay h ht
  rw [hreply, hm, List.length_append, encode_openRelay_length]
  exact Nat.le_add_right ..

theorem grabMsg_nil (x : PortPortMessage × Bytes) : grabMsg [] ≠ .ok x := by
  intro h
  obtain ⟨e, he, -⟩ := Cut.grabMsg (p := [])
    ⟨AUTH_SUCCESS, wellFormed_authSuccess, List.nil_prefix, by simp [encode, headerBytes]⟩
  cases he.symm.trans h

/-! ## The thread that sends no more -/

namespace Manager

/-- The callback of the management socket is not called any more. -/
def SendsNoMore (m : Manager) : Prop :=
  match m.phase with
  | .dispatch events => m.closeThread = true ∧ .client ∉ events.map Prod.fst
  | .closing _ | .closed | .crashed _ => True
  | _ => m.closeThread = true

theorem SendsNoMore.of_close {m : Manager} (h : m.closeThread = true)
    (hp : ∀ events, m.phase = .dispatch events → .client ∉ events.map Prod.fst) :
    m.SendsNoMore := by
  unfold SendsNoMore
  split
  · exact ⟨h, hp _ ‹_›⟩
  · trivial
  · trivial
  · trivial
  · exact h

theorem SendsNoMore.close {m : Manager} (h : m.SendsNoMore) (hr : m.phase = .top ∨
    m.phase = .recvLoop ∨ (∃ rid, m.phase = .creating rid) ∨
    (∃ port rid, m.phase = .joining port rid) ∨ (∃ left, m.phase = .inboundLoop left) ∨
    ∃ events, m.phase = .dispatch events) :
    m.closeThread = true := by
  unfold SendsNoMore at h
  rcases hr with hp | hp | ⟨_, hp⟩ | ⟨_, _, hp⟩ | ⟨_, hp⟩ | ⟨_, hp⟩
  all_goals rw [hp] at h
  · exact h
  · exact h
  · exact h
  · exact h
  · exact h
  · exact h.1

end Manager

theorem Server.mgrStep_sendsNoMore {s s' : Server} {a : ManagerAction} (h : s.mgr.SendsNoMore)
    (hs : s.mgrStep a = some s') : (∀ io, a ≠ .clientIo io) ∧ s'.mgr.SendsNoMore := by
  have hkept (hr : s.mgr.closeThread = true)
      (hp : ∀ events, s'.mgr.phase = .dispatch events → .client ∉ events.map Prod.fst) :
      s'.mgr.SendsNoMore := .of_close (mgrStep_closeThread hr hs) hp
  have hreplied {t : Server} {fs : List PortPortMessage} (hr : Server.Replies t fs s') (events) :
      s'.mgr.phase ≠ .dispatch events := by
    intro he
    rcases hr.replied.phase with hp | hp
    · cases hp.symm.trans he
    · cases hp.symm.trans he
  cases mgrStep_moves hs with
  | clientIo hp =>
    simp only [Manager.SendsNoMore, hp, List.map_cons, List.mem_cons, true_or, not_true,
      and_false] at h
  | selects hp hc =>
    have hclose := h.close (.inl hp)
    simp [hclose] at hc
  | leaves | closes | ends => exact ⟨by simp, trivial⟩
  | wakeupRead hp =>
    have hclose := h.close (by simp [hp])
    simp only [Manager.SendsNoMore, hp, List.map_cons, List.mem_cons, not_or] at h
    exact ⟨by simp, hkept hclose fun events he => by cases he; exact h.2.2⟩
  | dispatched hp => exact ⟨by simp, hkept (h.close (by simp [hp])) fun events he => by cases he⟩
  | emptied hp => exact ⟨by simp, hkept (h.close (by simp [hp])) fun events he => by cases he⟩
  | takes hp _ _ hm =>
    refine ⟨by simp, hkept (h.close (by simp [hp])) fun events he => ?_⟩
    cases hm with
    | replies hr => exact absurd he (hreplied hr events)
    | _ => cases he
  | refuses hp _ hr =>
    exact ⟨by simp, hkept (h.close (by simp [hp])) fun e he => absurd he (hreplied hr e)⟩
  | announces hp hr =>
    exact ⟨by simp, hkept (h.close (by simp [hp])) fun e he => absurd he (hreplied hr e)⟩
  | destroys hp _ hr =>
    exact ⟨by simp, hkept (h.close (by simp [hp])) fun e he => absurd he (hreplied hr e)⟩
  | @drains left hp =>
    refine ⟨by simp, hkept (h.close (by simp [hp])) fun events he => ?_⟩
    have hdrains := s.mgr.inboundTurn_drains left
    simp only [Server.withMgr_mgr] at he
    generalize s.mgr.inboundTurn left = m at hdrains he
    cases hdrains <;> cases he

theorem System.clientIo_streams {s s' : System} {io : ClientIO}
    (h : s.mgrStep (.clientIo io) = some s') :
    s'.down ++ s'.server.mgr.sendq = s.down ++ s.server.mgr.sendq ∧
      s'.server.mgr.recvq ++ s'.up = s.server.mgr.recvq ++ s.up := by
  obtain ⟨server, hserver, ⟨-, -, hpre, rfl⟩ | ⟨hio, -⟩⟩ := System.mgrStep_cases h
  · cases Server.mgrStep_moves hserver with
    | @clientIo mask events _ hp =>
      have hmoved := s.server.mgr.handleRelayClient_moved mask io
      refine ⟨?_, ?_⟩
      · simp only [Server.withMgr_mgr, List.append_assoc]
        rw [sentBy_append hmoved.sendq]
      · have hrecvq := append_receivedBy hmoved.recvq
        obtain ⟨rest, hrest⟩ := hpre
        simp only [Server.withMgr_mgr] at hrest ⊢
        rw [← hrest, List.drop_left, ← List.append_assoc, hrecvq]
  · exact absurd rfl (hio io)

theorem System.mgrStep_tags {s s' : System} {a : ManagerAction} (h : s.mgrStep a = some s') :
    s'.downTags = s.downTags ∧ s'.upTags = s.upTags := by
  obtain ⟨server, -, ⟨io, -, -, rfl⟩ | ⟨-, rfl⟩⟩ := System.mgrStep_cases h
  · exact ⟨rfl, rfl⟩
  · exact ⟨rfl, rfl⟩

theorem Server.clientIo_phase {s s' : Server} {io : ClientIO}
    (h : s.mgrStep (.clientIo io) = some s') (rid : Nat) : s'.mgr.phase ≠ .creating rid := by
  cases mgrStep_moves h with
  | clientIo =>
    simp only [Server.withMgr_mgr]
    split <;> simp

/-- With nothing received, the thread makes no relay. -/
theorem Server.mgrStep_unasked {s s' : Server} {a : ManagerAction} (hq : s.mgr.recvq = [])
    (hp : ∀ rid, s.mgr.phase ≠ .creating rid) (hio : ∀ io, a ≠ .clientIo io)
    (hs : s.mgrStep a = some s') :
    s'.mgr.recvq = [] ∧ ∀ rid, s'.mgr.phase ≠ .creating rid := by
  have hreplied {t : Server} {fs : List PortPortMessage} (hr : Server.Replies t fs s')
      (ht : t.mgr.recvq = []) : s'.mgr.recvq = [] ∧ ∀ rid, s'.mgr.phase ≠ .creating rid := by
    refine ⟨hr.replied.recvq.trans ht, fun rid he => ?_⟩
    rcases hr.replied.phase with hp | hp
    · cases hp.symm.trans he
    · cases hp.symm.trans he
  cases mgrStep_moves hs with
  | clientIo => exact absurd rfl (hio _)
  | takes _ _ hgrab =>
    rw [hq] at hgrab
    exact absurd hgrab (grabMsg_nil _)
  | refuses _ _ hr => exact hreplied hr hq
  | announces hc => exact absurd hc (hp _)
  | destroys _ _ hr => exact hreplied hr hq
  | @drains left =>
    have hdrains := s.mgr.inboundTurn_drains left
    simp only [Server.withMgr_mgr]
    generalize s.mgr.inboundTurn left = m at hdrains
    cases hdrains with
    | ends | fails => exact ⟨hq, by simp⟩
    | sends _ _ hm =>
      obtain ⟨_, _, _, -, rfl⟩ := Manager.send_sent hm
      exact ⟨hq, by simp⟩
  | _ => exact ⟨hq, by simp [goto, breakRecv]⟩

/-! ## The stages -/

/-- The server of a connection that has not been asked for a relay. -/
def Server.fresh (portRange : Option (Int × Int)) (closeService : Bool) (mgr : Manager) : Server :=
  { (ManagerRun.start portRange).server with closeService, mgr }

/-- The manager has handled nothing and sent nothing. -/
structure Manager.Idle (m : Manager) : Prop where
  eq : m = { phase := m.phase, closeThread := m.closeThread, recvq := m.recvq }
  steady : m.phase.steady = true
  closing : ∀ rids, m.phase = .closing rids → rids = []

theorem Manager.Idle.fresh : ({} : Manager).Idle := ⟨rfl, rfl, by simp⟩

theorem Manager.Idle.goto {m : Manager} (h : m.Idle) {phase : ManagerPhase}
    (hs : phase.steady = true) (hc : ∀ rids, phase = .closing rids → rids = [])
    (closeThread : Bool) :
    ({ m with phase, closeThread, wakeupPending := false } : Manager).Idle := by
  refine ⟨?_, hs, hc⟩
  rw [h.eq]

theorem Manager.Idle.wakeupPending {m : Manager} (h : m.Idle) : m.wakeupPending = false := by
  rw [h.eq]

theorem Manager.Idle.callback {m : Manager} (h : m.Idle) (mask : Mask) (io : ClientIO) :
    ∃ closeThread recvq, (m.handleRelayClient mask io).state =
      { phase := m.phase, closeThread, recvq } := by
  have hsendq : m.sendq = [] := by rw [h.eq]
  have hwrite (write : Bool) (send : Except OSError Nat) :
      m.writePart write send = { state := m } := by simp [Manager.writePart, hsendq]
  rw [Manager.handleRelayClient_eq, hwrite, h.eq]
  split
  · cases io.recv with
    | ok data => exact ⟨_, _, rfl⟩
    | error e => cases e <;> exact ⟨_, _, rfl⟩
  · exact ⟨_, _, rfl⟩

/-- The manager that has started the relay and is to announce it. -/
def Manager.creating (m : Manager) : Manager := { m with phase := .creating 0 }

theorem inert_creating : Manager.Inert Manager.creating :=
  ⟨fun _ => ⟨rfl, rfl⟩, fun _ _ _ => rfl⟩

/-- The manager that has announced the relay, but for the bytes `pending`, and stands at `phase`. -/
def Manager.sending (p : Int) (pending : Bytes) (phase : ManagerPhase) (m : Manager) : Manager :=
  { m.ahead p pending with phase }

theorem inert_sending (p : Int) (pending : Bytes) (phase : ManagerPhase) :
    Manager.Inert (Manager.sending p pending phase) :=
  ⟨fun _ => ⟨rfl, rfl⟩, fun _ _ _ => rfl⟩

/-- A port that `Relay.__init__` binds with this range. -/
def InRange (portRange : Option (Int × Int)) (p : Int) : Prop :=
  (0 < p ∧ p < 65536) ∧ ∀ lo hi, portRange = some (lo, hi) → lo ≤ p ∧ p ≤ hi

theorem bindLoop_port {ports : List Int} {results : List Relay.BindResult} {port p : Int}
    (h : Relay.bindLoop ports results = some (.ok (some (port, p)))) :
    port ∈ ports ∧ (port = 0 ∨ p = port) := by
  induction ports generalizing results with
  | nil =>
    cases results <;> cases h
  | cons q ports ih =>
    cases results with
    | nil => cases h
    | cons result results =>
      cases result with
      | bound p' =>
        simp only [Relay.bindLoop, Option.ite_none_right_eq_some, Option.some.injEq,
          Except.ok.injEq, Prod.mk.injEq] at h
        obtain ⟨hp, rfl, rfl⟩ := h
        exact ⟨List.mem_cons_self, hp⟩
      | osError e =>
        obtain ⟨hmem, hp⟩ := ih h
        exact ⟨List.mem_cons_of_mem _ hmem, hp⟩
      | overflow => cases h

theorem init_inRange {s : Server} {results : List Relay.BindResult} {r : Relay}
    (hr : results.all s.bindAllowed = true) (h : Relay.init s.portRange results = some (.ok r)) :
    InRange s.portRange r.identifyingPort := by
  obtain ⟨p, hp, rfl⟩ := Relay.init_bound h
  have hp := List.all_eq_true.mp hr _ hp
  simp only [Server.bindAllowed, Bool.and_eq_true, decide_eq_true_eq] at hp
  refine ⟨hp.1, fun lo hi hrange => ?_⟩
  simp only [Relay.init, hrange] at h
  split at h
  · cases h
  · cases h
  · split at h
    · rename_i port p' hloop
      split at h
      · cases h
      · rename_i hne
        cases h
        obtain ⟨hmem, hz | rfl⟩ := bindLoop_port hloop
        · exact absurd hz hne
        · rw [PortTable.portsOf_eq, List.mem_map] at hmem
          obtain ⟨i, hi, rfl⟩ := hmem
          rw [List.mem_range] at hi
          simp only
          omega
    · cases h

/-- The composed system at the point where the server makes the relay. -/
def System.asked (p : Int) (closeThread closeService close : Bool) : System :=
  { System.start p with
    server := { (System.start p).server with
      closeService
      mgr := { (System.start p).server.mgr with phase := .recvLoop, closeThread } }
    client := { (System.start p).client with close } }

theorem System.Reachable.asked {C : System → Peer → Prop} {p : Int} (hp : 0 < p ∧ p < 65536)
    (closeThread closeService close : Bool) :
    System.Reachable (System.OnAccept C) (System.asked p closeThread closeService close) := by
  have hstart : System.Reachable (System.OnAccept C) (System.start p) :=
    .init ⟨p, hp.1, hp.2, rfl⟩
  have hloop : System.Reachable (System.OnAccept C) (System.asked p closeThread false false) := by
    refine .step (.step (.step hstart (a := .mgr (.select [(.wakeup, .r)])) ?_ rfl)
      (a := .mgr (.wakeupRead closeThread)) ?_ rfl) (a := .mgr .turn) ?_ rfl
    all_goals exact fun addr he => by cases he
  have hservice : System.Reachable (System.OnAccept C)
      (System.asked p closeThread closeService false) := by
    cases closeService with
    | false => exact hloop
    | true => exact .step hloop (a := .serverShutdown) (fun addr he => by cases he) rfl
  cases close with
  | false => exact hservice
  | true => exact .step hservice (a := .clientShutdown) (fun addr he => by cases he) rfl

/-- The phase of a manager that has nothing to send but the announcement of its relay, as it is in
the composed system. -/
def ManagerPhase.clip (sendq : Bytes) : ManagerPhase → ManagerPhase
  | .dispatch events => .dispatch (events.map fun (key, mask) => (key, Manager.clipMask sendq mask))
  | phase => phase

/-- The events that are still to be dispatched are as `select` returns them. -/
def ManagerPhase.Selected (phase : ManagerPhase) : Prop := ∀ events, phase = .dispatch events →
  (events.map Prod.fst).Nodup ∧ ∀ mask, (.wakeup, mask) ∈ events → mask = .r

namespace Connection

/-- The server has not accepted the client yet. -/
structure Waiting (c : Connection) : Prop where
  door : c.door = .listening
  server : c.sys.server = .fresh c.sys.server.portRange c.sys.server.closeService {}
  down : c.sys.down = []
  hello : c.hello = .sendAuth ∧ c.skipAuth = false ∧ c.sys.up = [] ∨
    c.hello = .authReply ∧ c.skipAuth = false ∧ c.auth.length < 256 ^ 2 ∧
      c.sys.up = authFrame c.auth ∨
    c.hello = .sendCreate ∧ c.skipAuth = true ∧ c.sys.up = [] ∨
    c.hello = .openReply ∧ c.skipAuth = true ∧ c.sys.up = encode CREATE_RELAY
  tags : c.sys.downTags = [] ∧ c.sys.upTags = []

/-- The server sends no more, and what it has sent is too short for OPEN_RELAY. -/
structure Silent (c : Connection) : Prop where
  hello : c.hello ≠ .entered
  down : c.sys.down.length < 5
  server : c.door = .refused ∨ c.door = .serving ∧ c.sys.server.mgr.SendsNoMore

/-- The client waits for a message of type `t` that the server does not send. -/
structure Unanswered (t : PortPortMessageType) (c : Connection) : Prop where
  door : c.door = .serving
  hello : t = .authSuccess ∧ (c.hello = .sendAuth ∨ c.hello = .authReply) ∨
    t = .openRelay ∧ c.hello = .openReply ∧ c.sys.up = [] ∧ c.sys.server.mgr.recvq = [] ∧
      ∀ rid, c.sys.server.mgr.phase ≠ .creating rid
  stream : ∃ fs : List PortPortMessage, (∀ f ∈ fs, WellFormed f ∧ f.msgType ≠ t) ∧
    c.sys.down ++ c.sys.server.mgr.sendq = fs.flatMap encode

/-- The server has let the client in and has not been asked for a relay. -/
structure Admitted (c : Connection) : Prop where
  door : c.door = .serving
  authorized : c.Authorized
  server : c.sys.server = .fresh c.sys.server.portRange c.sys.server.closeService c.sys.server.mgr
  idle : c.sys.server.mgr.Idle
  hello : c.hello = .authReply ∧ c.sys.down = encode AUTH_SUCCESS ∧
      c.sys.server.mgr.recvq ++ c.sys.up = [] ∨
    c.hello = .sendCreate ∧ c.sys.down = [] ∧ c.sys.server.mgr.recvq ++ c.sys.up = [] ∨
    c.hello = .openReply ∧ c.sys.down = [] ∧
      c.sys.server.mgr.recvq ++ c.sys.up = encode CREATE_RELAY
  tags : c.sys.downTags = [] ∧ c.sys.upTags = []

/-- The relay has been started and the client waits for OPEN_RELAY. The state `a` of the composed
system goes along with the connection. -/
structure Shadow (C : Relay → Peer → Prop) (c : Connection) (a : System) : Prop where
  door : c.door = .serving
  authorized : c.Authorized
  hello : c.hello = .openReply
  reachable : System.Reachable (System.OnAccept fun s => C s.relay) a
  range : InRange c.sys.server.portRange a.relay.identifyingPort
  client : a.client =
    { (RemoteRun.start a.relay.identifyingPort).client with close := c.sys.client.close }
  up : c.sys.up = [] ∧ a.up = []
  recvq : a.server.mgr.recvq = []
  downTags : c.sys.downTags = a.downTags
  upTags : c.sys.upTags = a.upTags

/-- The thread of the relay has been started, and its port is to be announced. -/
structure Creating (C : Relay → Peer → Prop) (c : Connection) (a : System) : Prop
    extends Shadow C c a where
  server : c.sys.server = a.server.alongside c.sys.server.portRange Manager.creating
  phase : a.server.mgr.phase = .recvLoop
  sendq : a.server.mgr.sendq = []
  sendLog : a.server.mgr.sendLog = []
  down : c.sys.down = [] ∧ a.down = []

/-- The relay has been announced in a frame of which `pending` is still to be sent. -/
structure Sending (C : Relay → Peer → Prop) (c : Connection) (a : System) (pending : Bytes)
    (phase : ManagerPhase) : Prop extends Shadow C c a where
  server : c.sys.server = a.server.alongside c.sys.server.portRange
    (Manager.sending a.relay.identifyingPort pending phase)
  bytes : c.sys.down ++ pending = encode (OPEN_RELAY a.relay.identifyingPort) ++ a.down
  down : pending ≠ [] → a.down = []
  sent : pending = [] → a.server.mgr.phase = phase
  clipped : pending ≠ [] → a.server.mgr.phase = phase.clip a.server.mgr.sendq
  selected : phase.Selected

/-- The client is in its loop. -/
structure Entered (C : Relay → Peer → Prop) (c : Connection) : Prop where
  hello : c.hello = .entered
  door : c.door = .serving
  authorized : c.Authorized
  range : InRange c.sys.server.portRange c.remotePort
  relay : ∃ rid < c.sys.server.nrelays, (c.sys.server.relay rid).identifyingPort = c.remotePort
  session : c.lost = [] → ∃ a, System.Reachable (System.OnAccept fun s => C s.relay) a ∧
    a.relay.identifyingPort = c.remotePort ∧ c.sys = a.ahead c.sys.server.portRange c.remotePort

inductive Stage (C : Relay → Peer → Prop) (c : Connection) : Prop
  | gaveUp (h : c.hello = .gaveUp)
  | waiting (h : Waiting c)
  | silent (h : Silent c)
  | unanswered (h : Unanswered t c)
  | admitted (h : Admitted c)
  | creating (h : Creating C c a)
  | sending (h : Sending C c a pending phase)
  | entered (h : Entered C c)

variable {C : Relay → Peer → Prop} {c c' : Connection} {e : Event}

/-! ## The client that waits in vain -/

theorem gaveUp_step (h : c.hello = .gaveUp) (hs : c.step e = some c') : c'.hello = .gaveUp := by
  cases step_moves hs with
  | sends hm => cases hm <;> simp_all
  | receives hm => cases hm <;> simp_all
  | greets _ hm => cases hm <;> exact h
  | _ => exact h

theorem Silent.step (h : Silent c) (hs : c.step e = some c') : Stage C c' := by
  have hrelay {s : System} {server : Server} {rid : Nat} {a : Relay.RelayAction}
      {puts : List (Nat × QueuedRelayMessage)} (hd : c.door = .serving)
      (hr : c.sys.server.relayStep rid a = some (server, puts))
      (he : s.server = server ∧ s.down = c.sys.down) : Stage C { c with sys := s } := by
    obtain ⟨-, -, r, -, rfl⟩ := Server.relayStep_cases hr
    refine .silent ⟨h.hello, he.2 ▸ h.down, .inr ⟨hd, ?_⟩⟩
    rcases h.server with hd' | ⟨-, hm⟩
    · cases hd.symm.trans hd'
    · rw [he.1]
      exact hm
  cases step_moves hs with
  | sends hm =>
    cases hm with
    | auth | create => exact .silent ⟨by simp, h.down, h.server⟩
    | fails => exact .gaveUp rfl
  | receives hm =>
    cases hm with
    | auth =>
      refine .silent ⟨by simp, ?_, h.server⟩
      exact Nat.lt_of_le_of_lt (List.drop_suffix ..).length_le h.down
    | enters _ hreply hgrab ht =>
      have hlen := openRelay_length hgrab ht
      exact absurd h.down (Nat.not_lt.mpr (Nat.le_trans hlen hreply.length_le))
    | fails => exact .gaveUp rfl
  | greets hd =>
    rcases h.server with hd' | ⟨hd', -⟩
    · cases hd.symm.trans hd'
    · cases hd.symm.trans hd'
  | mgr hd hm =>
    rcases h.server with hd' | ⟨-, hmgr⟩
    · cases hd.symm.trans hd'
    · obtain ⟨hio, hmgr⟩ := Server.mgrStep_sendsNoMore hmgr (System.mgrStep_server hm)
      obtain ⟨server, hserver, ⟨io, rfl, -⟩ | ⟨-, rfl⟩⟩ := System.mgrStep_cases hm
      · exact absurd rfl (hio io)
      · exact .silent ⟨h.hello, h.down, .inr ⟨hd, hmgr⟩⟩
  | relay hd hm =>
    obtain ⟨⟨server, puts⟩, hserver, rfl⟩ := Option.map_eq_some_iff.mp hm
    exact hrelay hd hserver ⟨rfl, rfl⟩
  | remote he | proxy he => exact absurd he h.hello
  | serverShutdown | clientShutdown => exact .silent ⟨h.hello, h.down, h.server⟩
  | otherRelay hd _ hm => exact hrelay hd hm ⟨rfl, rfl⟩

/-- What the client reads off the stream is no message of type `t`. -/
theorem Unanswered.reply {t : PortPortMessageType} {reply rest : Bytes} {m : PortPortMessage}
    (h : Unanswered t c) (hreply : reply <+: c.sys.down) (hgrab : grabMsg reply = .ok (m, rest)) :
    m.msgType ≠ t := by
  obtain ⟨fs, hfs, hbytes⟩ := h.stream
  obtain ⟨x, hx⟩ := hreply
  rw [← hx, List.append_assoc] at hbytes
  obtain ⟨fs', rfl, -⟩ := grabMsg_stream (fun f hf => (hfs f hf).1) hbytes hgrab
  exact (hfs m List.mem_cons_self).2

theorem Unanswered.mgr {t : PortPortMessageType} {a : ManagerAction} {s : System}
    (h : Unanswered t c) (hs : c.sys.mgrStep a = some s) : Unanswered t { c with sys := s } := by
  obtain ⟨fs, hfs, hbytes⟩ := h.stream
  by_cases hio : ∃ io, a = .clientIo io
  · obtain ⟨io, rfl⟩ := hio
    obtain ⟨hdown, hup⟩ := System.clientIo_streams hs
    refine ⟨h.door, ?_, fs, hfs, hdown.trans hbytes⟩
    rcases h.hello with hh | ⟨rfl, hh, hup0, hq, -⟩
    · exact .inl hh
    · rw [hup0, hq] at hup
      exact .inr ⟨rfl, hh, (List.append_eq_nil_iff.mp hup).2, (List.append_eq_nil_iff.mp hup).1,
        Server.clientIo_phase (System.mgrStep_server hs)⟩
  · have hio : ∀ io, a ≠ .clientIo io := fun io he => hio ⟨io, he⟩
    have hserver := System.mgrStep_server hs
    obtain ⟨fs', ⟨hwf, hsendq⟩, hfs'⟩ := Server.mgrStep_sent hio hserver
    obtain ⟨server, -, ⟨io, rfl, -⟩ | ⟨-, rfl⟩⟩ := System.mgrStep_cases hs
    · exact absurd rfl (hio io)
    have hstream (ht : ∀ f ∈ fs', f.msgType ≠ t) : ∃ fs : List PortPortMessage,
        (∀ f ∈ fs, WellFormed f ∧ f.msgType ≠ t) ∧
          c.sys.down ++ server.mgr.sendq = fs.flatMap encode := by
      refine ⟨fs ++ fs', fun f hf => ?_, ?_⟩
      · exact (List.mem_append.mp hf).elim (hfs f) fun hf => ⟨hwf f hf, ht f hf⟩
      · rw [List.flatMap_append, ← hbytes, List.append_assoc]
        exact congrArg _ hsendq
    rcases h.hello with ⟨rfl, hh⟩ | ⟨rfl, hh, hup0, hq, hp⟩
    · exact ⟨h.door, .inl ⟨rfl, hh⟩, hstream fun f hf => (hfs' f hf).1⟩
    · refine ⟨h.door, .inr ⟨rfl, hh, hup0, Server.mgrStep_unasked hq hp hio hserver⟩,
        hstream fun f hf ht => ?_⟩
      obtain ⟨rid, hrid⟩ := (hfs' f hf).2 ht
      exact hp rid hrid

theorem Unanswered.sends {t : PortPortMessageType} (h : Unanswered t c) (hm : Sends c c') :
    Stage C c' := by
  cases hm with
  | auth hp =>
    rcases h.hello with ⟨rfl, -⟩ | ⟨-, hh, -⟩
    · exact .unanswered ⟨h.door, .inl ⟨rfl, .inr rfl⟩, h.stream⟩
    · cases hp.symm.trans hh
  | create hp => rcases h.hello with ⟨-, hh | hh⟩ | ⟨-, hh, -⟩ <;> cases hp.symm.trans hh
  | fails => exact .gaveUp rfl

theorem Unanswered.receives {t : PortPortMessageType} (h : Unanswered t c) (hm : Receives c c') :
    Stage C c' := by
  cases hm with
  | auth hp hreply hgrab ht =>
    rcases h.hello with ⟨rfl, -⟩ | ⟨-, hh, -⟩
    · exact absurd ht (h.reply hreply hgrab)
    · cases hp.symm.trans hh
  | enters hp hreply hgrab ht =>
    rcases h.hello with ⟨-, hh | hh⟩ | ⟨rfl, -⟩
    · cases hp.symm.trans hh
    · cases hp.symm.trans hh
    · exact absurd ht (h.reply hreply hgrab)
  | fails => exact .gaveUp rfl

theorem Unanswered.step {t : PortPortMessageType} (h : Unanswered t c)
    (hs : c.step e = some c') : Stage C c' := by
  have hrelay {s : System} {server : Server} {rid : Nat} {a : Relay.RelayAction}
      {puts : List (Nat × QueuedRelayMessage)}
      (hr : c.sys.server.relayStep rid a = some (server, puts))
      (he : s.server = server ∧ s.down = c.sys.down ∧ s.up = c.sys.up) :
      Stage C { c with sys := s } := by
    obtain ⟨-, -, r, -, rfl⟩ := Server.relayStep_cases hr
    obtain ⟨hserver, hdown, hup⟩ := he
    refine .unanswered (t := t) ⟨h.door, ?_, ?_⟩
    · simp only [hserver, hup]
      exact h.hello
    · simp only [hserver, hdown]
      exact h.stream
  cases step_moves hs with
  | sends hm => exact h.sends hm
  | receives hm => exact h.receives hm
  | greets hd => cases hd.symm.trans h.door
  | mgr _ hm => exact .unanswered (h.mgr hm)
  | relay _ hm =>
    obtain ⟨⟨server, puts⟩, hserver, rfl⟩ := Option.map_eq_some_iff.mp hm
    exact hrelay hserver ⟨rfl, rfl, rfl⟩
  | remote he | proxy he => rcases h.hello with ⟨-, hh | hh⟩ | ⟨-, hh, -⟩ <;> cases he.symm.trans hh
  | serverShutdown | clientShutdown => exact .unanswered ⟨h.door, h.hello, h.stream⟩
  | otherRelay _ _ hm => exact hrelay hm ⟨rfl, rfl, rfl⟩

/-! ## The client that is let in -/

theorem Waiting.hello_ne (h : Waiting c) : c.hello ≠ .entered := by
  intro he
  rcases h.hello with ⟨hh, -⟩ | ⟨hh, -⟩ | ⟨hh, -⟩ | ⟨hh, -⟩ <;> cases he.symm.trans hh

/-- The client is told that it is authenticated, so its AUTH frame has been read. -/
theorem Waiting.admits {nio : NewcomerIO} {n : Nat} {frame rest : Bytes} {m : PortPortMessage}
    (h : Waiting c) (hw : c.wholeAuth (.newcomer nio n)) (hb : c.mgmt.authBypass = false)
    (hrecv : nio.recv = .ok frame) (hdec : deserialize frame = .ok (m, rest))
    (ht : m.msgType = .auth) (ha : m.auth = c.mgmt.authToken) :
    c.hello = .authReply ∧ c.Authorized ∧ frame = c.sys.up := by
  have hframe : frame = c.sys.up := by simpa [wholeAuth, hrecv, hb] using hw
  have hgrab : grabMsg c.sys.up = .ok (m, rest) := hframe ▸ hdec
  rcases h.hello with ⟨-, -, hup⟩ | ⟨hh, hskip, hfits, hup⟩ | ⟨-, -, hup⟩ | ⟨-, -, hup⟩
  · rw [hup] at hgrab
    exact absurd hgrab (grabMsg_nil _)
  · refine ⟨hh, ⟨hb.trans hskip.symm, fun _ => ?_⟩, hframe⟩
    rw [hframe, hup, authFrame, deserialize_token _ hfits] at hdec
    cases hauth : decodeUtf8 ((encodeUtf8 c.auth).take c.auth.length) with
    | error e =>
      rw [hauth] at hdec
      cases hdec
    | ok auth =>
      rw [hauth] at hdec
      cases hdec
      rw [decodeUtf8_iff.mp hauth]
      exact congrArg encodeUtf8 ha
  · rw [hup] at hgrab
    exact absurd hgrab (grabMsg_nil _)
  · have hcreate := grabMsg_encode wellFormed_createRelay []
    rw [List.append_nil, ← hup, hgrab] at hcreate
    cases hcreate
    cases ht

theorem Waiting.sends (h : Waiting c) (hm : Sends c c') : Stage C c' := by
  cases hm with
  | auth hp hfits =>
    rcases h.hello with ⟨-, hskip, hup⟩ | ⟨hh, -⟩ | ⟨hh, -⟩ | ⟨hh, -⟩
    · exact .waiting ⟨h.door, h.server, h.down,
        .inr (.inl ⟨rfl, hskip, hfits, by simp [hup]⟩), h.tags⟩
    all_goals cases hp.symm.trans hh
  | create hp =>
    rcases h.hello with ⟨hh, -⟩ | ⟨hh, -⟩ | ⟨-, hskip, hup⟩ | ⟨hh, -⟩
    · cases hp.symm.trans hh
    · cases hp.symm.trans hh
    · exact .waiting ⟨h.door, h.server, h.down, .inr (.inr (.inr ⟨rfl, hskip, by simp [hup]⟩)),
        h.tags⟩
    · cases hp.symm.trans hh
  | fails => exact .gaveUp rfl

theorem Waiting.receives (h : Waiting c) (hm : Receives c c') : Stage C c' := by
  have hempty {reply rest : Bytes} {m : PortPortMessage} (hreply : reply <+: c.sys.down)
      (hgrab : grabMsg reply = .ok (m, rest)) : False := by
    rw [h.down, List.prefix_nil] at hreply
    exact grabMsg_nil _ (hreply ▸ hgrab)
  cases hm with
  | auth _ hreply hgrab => exact (hempty hreply hgrab).elim
  | enters _ hreply hgrab => exact (hempty hreply hgrab).elim
  | fails => exact .gaveUp rfl

/-- The server has let the client in and has done nothing else. -/
theorem Waiting.admitted {d : Connection} (h : Waiting c) (hserver : d.sys.server = c.sys.server)
    (hdoor : d.door = .serving) (hauthorized : d.Authorized)
    (hello : d.hello = .authReply ∧ d.sys.down = encode AUTH_SUCCESS ∧ d.sys.up = [] ∨
      d.hello = .sendCreate ∧ d.sys.down = [] ∧ d.sys.up = [] ∨
      d.hello = .openReply ∧ d.sys.down = [] ∧ d.sys.up = encode CREATE_RELAY)
    (htags : d.sys.downTags = [] ∧ d.sys.upTags = []) : Admitted d := by
  have hfresh : d.sys.server =
      .fresh d.sys.server.portRange d.sys.server.closeService {} := hserver ▸ h.server
  have hmgr : d.sys.server.mgr = {} := by rw [hfresh]; rfl
  refine ⟨hdoor, hauthorized, ?_, ?_, ?_, htags⟩
  · rw [hmgr]
    exact hfresh
  · rw [hmgr]
    exact Manager.Idle.fresh
  · rw [hmgr]
    exact hello

theorem Waiting.greets {io : NewcomerIO} {n : Nat} (h : Waiting c)
    (hw : c.wholeAuth (.newcomer io n)) (hm : Greets c io c') : Stage C c' := by
  cases hm with
  | refuses up hsent =>
    refine .silent ⟨h.hello_ne, ?_, .inl rfl⟩
    simp only [h.down, List.nil_append]
    exact Nat.lt_succ_of_le hsent
  | bypasses hb =>
    have hsendq : c.sys.server.mgr.sendq = [] := by rw [h.server]; rfl
    rcases h.hello with ⟨hh, hskip, -⟩ | ⟨hh, hskip, -⟩ | ⟨hh, hskip, hup⟩ | ⟨hh, hskip, hup⟩
    · exact .unanswered ⟨rfl, .inl ⟨rfl, .inl hh⟩, [], by simp, by simp [h.down, hsendq]⟩
    · exact .unanswered ⟨rfl, .inl ⟨rfl, .inr hh⟩, [], by simp, by simp [h.down, hsendq]⟩
    · exact .admitted (h.admitted rfl rfl ⟨hb.trans hskip.symm, by simp [hskip]⟩
        (.inr (.inl ⟨hh, h.down, hup⟩)) h.tags)
    · exact .admitted (h.admitted rfl rfl ⟨hb.trans hskip.symm, by simp [hskip]⟩
        (.inr (.inr ⟨hh, h.down, hup⟩)) h.tags)
  | admits hb hrecv hdec ht ha =>
    obtain ⟨hh, hauthorized, rfl⟩ := h.admits hw hb hrecv hdec ht ha
    exact .admitted (h.admitted rfl rfl hauthorized
      (.inl ⟨hh, by simp [h.down], by simp⟩) h.tags)

theorem Waiting.step (h : Waiting c) (hw : c.wholeAuth e) (hs : c.step e = some c') :
    Stage C c' := by
  cases step_moves hs with
  | sends hm => exact h.sends hm
  | receives hm => exact h.receives hm
  | greets _ hm => exact h.greets hw hm
  | mgr hd | relay hd | otherRelay hd => cases hd.symm.trans h.door
  | remote he | proxy he => exact absurd he h.hello_ne
  | serverShutdown =>
    refine .waiting ⟨h.door, ?_, h.down, h.hello, h.tags⟩
    rw [h.server]
    rfl
  | clientShutdown => exact .waiting ⟨h.door, h.server, h.down, h.hello, h.tags⟩

/-! ## The server that has not been asked -/

theorem Admitted.hello_ne (h : Admitted c) : c.hello ≠ .entered := by
  intro he
  rcases h.hello with ⟨hh, -⟩ | ⟨hh, -⟩ | ⟨hh, -⟩ <;> cases he.symm.trans hh

theorem Admitted.down_short (h : Admitted c) : c.sys.down.length < 5 := by
  rcases h.hello with ⟨-, hd, -⟩ | ⟨-, hd, -⟩ | ⟨-, hd, -⟩
  · rw [hd]
    decide
  · rw [hd]
    decide
  · rw [hd]
    decide

/-- What the thread refuses to decode is a frame cut short. -/
theorem Admitted.refuses (h : Admitted c) {e : PyError}
    (hgrab : grabMsg c.sys.server.mgr.recvq = .error e) : e.violation = false := by
  have hcut : Cut c.sys.server.mgr.recvq := by
    rcases h.hello with ⟨-, -, hq⟩ | ⟨-, -, hq⟩ | ⟨-, -, hq⟩
    · exact cut_of_stream (List.forall_mem_nil _) hq hgrab
    · exact cut_of_stream (List.forall_mem_nil _) hq hgrab
    · exact cut_of_stream (List.forall_mem_singleton.mpr wellFormed_createRelay)
        (hq.trans (List.append_nil _).symm) hgrab
  obtain ⟨e', he', hv⟩ := hcut.grabMsg
  cases he'.symm.trans hgrab
  exact hv

/-- The step of a thread that still has to be asked for a relay. -/
theorem Admitted.moved {s : System} {mgr : Manager} (h : Admitted c) (hi : mgr.Idle)
    (hs : s.server = c.sys.server.withMgr mgr) (hdown : s.down = c.sys.down)
    (hup : mgr.recvq ++ s.up = c.sys.server.mgr.recvq ++ c.sys.up)
    (htags : s.downTags = c.sys.downTags ∧ s.upTags = c.sys.upTags) :
    Admitted { c with sys := s } where
  door := h.door
  authorized := h.authorized
  server := by
    simp only [hs]
    rw [h.server]
    rfl
  idle := by
    simp only [hs]
    exact hi
  hello := by
    simp only [hs, hdown, Server.withMgr_mgr, hup]
    exact h.hello
  tags := ⟨htags.1.trans h.tags.1, htags.2.trans h.tags.2⟩

theorem Admitted.clientIo {io : ClientIO} {s : System} (h : Admitted c)
    (hs : c.sys.mgrStep (.clientIo io) = some s) : Stage C { c with sys := s } := by
  obtain ⟨hdown, hup⟩ := System.clientIo_streams hs
  have hserver := System.mgrStep_server hs
  generalize hsv : s.server = server at hdown hup hserver
  cases Server.mgrStep_moves hserver with
  | @clientIo mask events _ hp =>
    obtain ⟨closeThread, recvq, hstate⟩ := h.idle.callback mask io
    have hsendq : c.sys.server.mgr.sendq = [] := by rw [h.idle.eq]
    rw [hstate] at hsv hdown hup
    simp only [Server.withMgr_mgr, hsendq, List.append_nil] at hdown hup
    cases hraised : (c.sys.server.mgr.handleRelayClient mask io).raised with
    | some e =>
      refine .silent ⟨h.hello_ne, by rw [hdown]; exact h.down_short, .inr ⟨h.door, ?_⟩⟩
      simp only [hsv, hraised, Server.withMgr_mgr]
      trivial
    | none =>
      rw [hraised] at hsv
      exact .admitted (h.moved ⟨rfl, rfl, by simp⟩ hsv hdown hup (System.mgrStep_tags hs))

/-- A step of the thread behind which it has still to be asked for a relay. -/
theorem Admitted.mgr {a : ManagerAction} {s : System} (h : Admitted c)
    (hs : c.sys.mgrStep a = some s)
    (ha : ∀ msg recvq, c.sys.server.mgr.phase = .recvLoop →
      grabMsg c.sys.server.mgr.recvq ≠ .ok (msg, recvq)) : Stage C { c with sys := s } := by
  obtain ⟨server, hserver, ⟨io, rfl, -⟩ | ⟨hio, rfl⟩⟩ := System.mgrStep_cases hs
  · exact h.clientIo hs
  have hidle := h.idle
  have hmoved {phase : ManagerPhase} (closeThread : Bool) (hsteady : phase.steady = true)
      (hc : ∀ rids, phase = .closing rids → rids = []) :
      Stage C { c with sys := { c.sys with server := c.sys.server.withMgr { c.sys.server.mgr with
        phase, closeThread, wakeupPending := false } } } :=
    .admitted (h.moved (hidle.goto hsteady hc closeThread) rfl rfl rfl ⟨rfl, rfl⟩)
  have hgoto {phase : ManagerPhase} (hsteady : phase.steady = true)
      (hc : ∀ rids, phase = .closing rids → rids = []) :
      Stage C { c with sys := { c.sys with server := c.sys.server.goto phase } } := by
    have hm := hmoved c.sys.server.mgr.closeThread hsteady hc
    rw [← hidle.wakeupPending] at hm
    exact hm
  cases Server.mgrStep_moves hserver with
  | leaves =>
    refine hgoto rfl fun rids he => ?_
    rw [hidle.eq] at he
    cases he
    rfl
  | selects | dispatched | emptied => exact hgoto rfl (by simp)
  | clientIo => exact absurd rfl (hio _)
  | wakeupRead => exact hmoved _ rfl (by simp)
  | takes hp _ hgrab => exact absurd hgrab (ha _ _ hp)
  | refuses _ hgrab =>
    have hv := h.refuses hgrab
    rw [← Server.loops_eq_violation] at hv
    rw [Server.recvExcept_breaks hv]
    exact hgoto rfl (by simp)
  | announces hp | destroys hp =>
    have hsteady := hidle.steady
    rw [hp] at hsteady
    cases hsteady
  | @drains left =>
    have hitems : c.sys.server.mgr.inboundData = [] := by rw [hidle.eq]
    have hturn : c.sys.server.mgr.inboundTurn left = { c.sys.server.mgr with phase := .top } := by
      simp [Manager.inboundTurn, hitems]
    rw [hturn]
    exact hgoto rfl (by simp)
  | closes hp =>
    have hnil := hidle.closing _ hp
    cases hnil
  | ends => exact .silent ⟨h.hello_ne, h.down_short, .inr ⟨h.door, trivial⟩⟩

/-- The frame that the thread takes can only be CREATE_RELAY. -/
theorem Admitted.takes (h : Admitted c) {msg : PortPortMessage} {recvq : Bytes}
    (hgrab : grabMsg c.sys.server.mgr.recvq = .ok (msg, recvq)) :
    c.hello = .openReply ∧ c.sys.down = [] ∧ msg = CREATE_RELAY ∧ recvq = [] ∧ c.sys.up = [] := by
  have hnil (hq : c.sys.server.mgr.recvq ++ c.sys.up = []) : False := by
    rw [(List.append_eq_nil_iff.mp hq).1] at hgrab
    exact grabMsg_nil _ hgrab
  rcases h.hello with ⟨-, -, hq⟩ | ⟨-, -, hq⟩ | ⟨hh, hd, hq⟩
  · exact (hnil hq).elim
  · exact (hnil hq).elim
  · obtain ⟨fs, hfs, hrest⟩ := grabMsg_stream
      (List.forall_mem_singleton.mpr wellFormed_createRelay)
      (hq.trans (List.append_nil _).symm) hgrab
    cases hfs
    obtain ⟨hq, hu⟩ := List.append_eq_nil_iff.mp hrest
    exact ⟨hh, hd, rfl, hq, hu⟩

/-- The server that has started the relay, beside the composed system at this point. -/
theorem fresh_creates {portRange : Option (Int × Int)} {closeService close : Bool} {m : Manager}
    (hm : m.Idle) (p : Int) :
    ({ (Server.fresh portRange closeService { m with recvq := [] }).setRelay 0
        { identifyingPort := p } with
      mgr := { m with recvq := [], relays := m.relays.set p 0, phase := .creating 0 }
      nrelays := 1 } : Server) =
    (System.asked p m.closeThread closeService close).server.alongside portRange
      Manager.creating := by
  rw [hm.eq]
  rfl

theorem Admitted.creates {results : List Relay.BindResult} {s : System} (h : Admitted c)
    {msg : PortPortMessage} {recvq : Bytes}
    (hgrab : grabMsg c.sys.server.mgr.recvq = .ok (msg, recvq))
    (hs : c.sys.mgrStep (.recvTurn results) = some s) : Stage C { c with sys := s } := by
  obtain ⟨hh, hdown, rfl, rfl, hup⟩ := h.takes hgrab
  obtain ⟨server, hserver, ⟨io, he, -⟩ | ⟨-, rfl⟩⟩ := System.mgrStep_cases hs
  · cases he
  obtain ⟨-, hr, hturn⟩ := Server.mgrStep_recvTurn hserver
  have hne : c.sys.server.mgr.recvq ≠ [] := by
    intro hq
    rw [hq] at hgrab
    exact grabMsg_nil _ hgrab
  rw [Server.recvTurn, if_neg hne, hgrab] at hturn
  have hidle := h.idle
  generalize hm : c.sys.server.mgr = m at hidle hturn
  obtain ⟨portRange, closeService, hfresh⟩ : ∃ portRange closeService,
      c.sys.server = .fresh portRange closeService m := ⟨_, _, hm ▸ h.server⟩
  -- behind any reply that is no announcement, the client waits in vain
  have hreplied {t : Server} {fs : List PortPortMessage} (ht : t.mgr = { m with recvq := [] })
      (hsent : Server.Sent t fs server) (hfs : Server.Errors fs)
      (hreplied : Server.Replied t server) :
      Stage C { c with sys := { c.sys with server } } := by
    refine .unanswered ⟨h.door, .inr ⟨rfl, hh, hup, ?_, fun rid he => ?_⟩, fs, fun f hf => ?_, ?_⟩
    · exact hreplied.recvq.trans (by rw [ht])
    · rcases hreplied.phase with hp | hp
      · cases hp.symm.trans he
      · cases hp.symm.trans he
    · exact ⟨hsent.1 f hf, by simp [hfs f hf]⟩
    · have hsendq : t.mgr.sendq = [] := by rw [ht, hidle.eq]
      simp only [hdown, List.nil_append, hsent.2, hsendq]
  simp only [Server.processMsg, CREATE_RELAY] at hturn
  split at hturn
  · cases hturn
  · rename_i r hinit
    cases hturn
    have hrange := init_inRange (s := c.sys.server) hr hinit
    obtain ⟨p, -, rfl⟩ := Relay.init_bound hinit
    refine .creating (a := System.asked p m.closeThread closeService c.sys.client.close)
      ⟨⟨h.door, h.authorized, hh, .asked hrange.1 .., hrange, rfl, ⟨hup, rfl⟩, rfl, h.tags.1,
        h.tags.2⟩, ?_, rfl, rfl, rfl, ⟨hdown, rfl⟩⟩
    simp only [hfresh]
    exact fresh_creates hidle p
  · cases hturn
    obtain ⟨fs, hsent, hfs⟩ := Server.replyError_sent _ _
    exact hreplied rfl hsent hfs (Server.reply_replied ..)
  · cases hturn
    obtain ⟨fs, hsent, hfs⟩ := Server.recvExcept_sent _ _
    exact hreplied rfl hsent hfs (Server.recvExcept_replied ..)

theorem Admitted.sends (h : Admitted c) (hm : Sends c c') : Stage C c' := by
  cases hm with
  | auth hp => rcases h.hello with ⟨hh, -⟩ | ⟨hh, -⟩ | ⟨hh, -⟩ <;> cases hp.symm.trans hh
  | create hp =>
    rcases h.hello with ⟨hh, -⟩ | ⟨-, hdown, hup⟩ | ⟨hh, -⟩
    · cases hp.symm.trans hh
    · refine .admitted ⟨h.door, h.authorized, h.server, h.idle,
        .inr (.inr ⟨rfl, hdown, ?_⟩), h.tags⟩
      simp only [← List.append_assoc, hup, List.nil_append]
    · cases hp.symm.trans hh
  | fails => exact .gaveUp rfl

theorem Admitted.receives (h : Admitted c) (hm : Receives c c') : Stage C c' := by
  cases hm with
  | @auth reply m rest hp hreply hgrab ht =>
    rcases h.hello with ⟨-, hdown, hup⟩ | ⟨hh, -⟩ | ⟨hh, -⟩
    · refine .admitted ⟨h.door, h.authorized, h.server, h.idle,
        .inr (.inl ⟨rfl, ?_, hup⟩), h.tags⟩
      have hlen : (encode AUTH_SUCCESS).length ≤ reply.length := by
        rw [reply_authSuccess hgrab ht, List.length_append]
        exact Nat.le_add_right ..
      simp only [hdown]
      exact List.drop_of_length_le hlen
    · cases hp.symm.trans hh
    · cases hp.symm.trans hh
  | enters hp hreply hgrab =>
    rcases h.hello with ⟨hh, -⟩ | ⟨hh, -⟩ | ⟨-, hdown, -⟩
    · cases hp.symm.trans hh
    · cases hp.symm.trans hh
    · rw [hdown, List.prefix_nil] at hreply
      exact absurd (hreply ▸ hgrab) (grabMsg_nil _)
  | fails => exact .gaveUp rfl

theorem Admitted.step (h : Admitted c) (hs : c.step e = some c') : Stage C c' := by
  have hnorelay {rid : Nat} {a : Relay.RelayAction} {x : Server × List (Nat × QueuedRelayMessage)}
      (hr : c.sys.server.relayStep rid a = some x) : False := by
    obtain ⟨hrid, -⟩ := Server.relayStep_cases hr
    rw [h.server] at hrid
    exact Nat.not_lt_zero _ hrid
  cases step_moves hs with
  | sends hm => exact h.sends hm
  | receives hm => exact h.receives hm
  | greets hd => cases hd.symm.trans h.door
  | @mgr a s _ hm =>
    by_cases ha : ∃ msg recvq, c.sys.server.mgr.phase = .recvLoop ∧
        grabMsg c.sys.server.mgr.recvq = .ok (msg, recvq)
    · obtain ⟨msg, recvq, hp, hgrab⟩ := ha
      cases a with
      | recvTurn results => exact h.creates hgrab hm
      | _ =>
        have hserver := System.mgrStep_server hm
        simp only [Server.mgrStep, hp] at hserver
        cases hserver
    · exact h.mgr hm fun msg recvq hp hgrab => ha ⟨msg, recvq, hp, hgrab⟩
  | relay _ hm =>
    obtain ⟨x, hserver, -⟩ := Option.map_eq_some_iff.mp hm
    exact (hnorelay hserver).elim
  | otherRelay _ _ hm => exact (hnorelay hm).elim
  | remote he | proxy he => exact absurd he h.hello_ne
  | serverShutdown =>
    refine .admitted ⟨h.door, h.authorized, ?_, h.idle, h.hello, h.tags⟩
    rw [h.server]
    rfl
  | clientShutdown =>
    exact .admitted ⟨h.door, h.authorized, h.server, h.idle, h.hello, h.tags⟩

end Connection
end PortPort
