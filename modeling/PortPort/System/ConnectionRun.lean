import PortPort.System.ConnectionStages

/-! # A connection refines the composed system

From the start of the relay on, each step of the connection is taken by the state of the composed
system that goes along with it, until the client is in its loop and the two are the same state but
for the announcement in the log of the server. -/

namespace PortPort
open PortPortMessage
open Server (ManagerAction)

/-! ## The events to be dispatched -/

theorem Server.mgrStep_dispatch {s s' : Server} {a : ManagerAction}
    {events : List (ManagerKey × Mask)} (h : s.mgrStep a = some s')
    (he : s'.mgr.phase = .dispatch events) :
    a = .select events ∧ s.mgr.selectable events = true ∨
      ∃ event, s.mgr.phase = .dispatch (event :: events) := by
  have hreplied {t : Server} {fs : List PortPortMessage} (hr : Server.Replies t fs s') : False := by
    rcases hr.replied.phase with hp | hp
    · cases hp.symm.trans he
    · cases hp.symm.trans he
  cases mgrStep_moves h with
  | selects hp hc =>
    cases he
    simp only [Bool.and_eq_true] at hc
    exact .inl ⟨rfl, hc.2⟩
  | clientIo hp =>
    simp only [withMgr_mgr] at he
    split at he
    · cases he
      exact .inr ⟨_, hp⟩
    · cases he
  | wakeupRead hp =>
    cases he
    exact .inr ⟨_, hp⟩
  | takes _ _ _ hm =>
    cases hm with
    | replies hr => exact (hreplied hr).elim
    | _ => cases he
  | refuses _ _ hr => exact (hreplied hr).elim
  | announces _ hr => exact (hreplied hr).elim
  | destroys _ _ hr => exact (hreplied hr).elim
  | @drains left =>
    have hdrains := s.mgr.inboundTurn_drains left
    simp only [withMgr_mgr] at he
    generalize s.mgr.inboundTurn left = m at hdrains he
    cases hdrains <;> cases he
  | _ => cases he

theorem Server.mgrStep_atTop {s s' : Server} {events : List (ManagerKey × Mask)}
    (h : s.mgrStep (.select events) = some s') : s.mgr.phase = .top := by
  cases mgrStep_moves h with
  | selects hp => exact hp

theorem Server.mgrStep_atDispatch {s s' : Server} {io : ClientIO}
    (h : s.mgrStep (.clientIo io) = some s') : ∃ events, s.mgr.phase = .dispatch events := by
  cases mgrStep_moves h with
  | clientIo hp => exact ⟨_, hp⟩

theorem Server.mgrStep_selected {s s' : Server} {a : ManagerAction} (h : s.mgrStep a = some s')
    (h0 : s.mgr.phase.Selected) : s'.mgr.phase.Selected := by
  intro events he
  rcases mgrStep_dispatch h he with ⟨-, hsel⟩ | ⟨event, hp⟩
  · simp only [Manager.selectable, Bool.and_eq_true, decide_eq_true_eq, List.all_eq_true] at hsel
    exact ⟨hsel.1, fun mask hm => by simpa using hsel.2 _ hm⟩
  · obtain ⟨hnodup, hwakeup⟩ := h0 _ hp
    exact ⟨(List.nodup_cons.mp hnodup).2, fun mask hm => hwakeup mask (List.mem_cons_of_mem _ hm)⟩

theorem ManagerPhase.clip_selected {events : List (ManagerKey × Mask)} {event : ManagerKey × Mask}
    (sendq : Bytes) (h : (ManagerPhase.dispatch (event :: events)).Selected)
    (hc : event.1 = .client) : (ManagerPhase.dispatch events).clip sendq = .dispatch events := by
  obtain ⟨hnodup, hwakeup⟩ := h _ rfl
  have hclip : ∀ x ∈ events, (x.1, Manager.clipMask sendq x.2) = x := by
    intro x hx
    obtain ⟨key, mask⟩ := x
    cases key with
    | client =>
      rw [List.map_cons, List.nodup_cons, hc] at hnodup
      exact absurd (List.mem_map_of_mem hx) hnodup.1
    | wakeup =>
      obtain rfl := hwakeup mask (List.mem_cons_of_mem _ hx)
      simp only [Manager.clipMask]
      split <;> rfl
  exact congrArg ManagerPhase.dispatch ((List.map_congr_left hclip).trans (List.map_id' events))

theorem ManagerPhase.clip_idle {phase : ManagerPhase} (sendq : Bytes)
    (h : ∀ events, phase ≠ .dispatch events) : phase.clip sendq = phase := by
  cases phase with
  | dispatch events => exact absurd rfl (h events)
  | _ => rfl

namespace Manager
variable {p : Int} {pending : Bytes} {m : Manager}

theorem writePart_phase (write : Bool) (send : Except OSError Nat) (phase : ManagerPhase) :
    ({ m with phase } : Manager).writePart write send = { m.writePart write send with
      state := { (m.writePart write send).state with phase } } := by
  unfold writePart
  split
  · cases send with
    | ok n =>
      unfold handleWrite
      by_cases hd : m.sendq.drop n = []
      · simp [hd]
      · simp [hd]
    | error e =>
      by_cases hq : m.sendq = []
      · cases e <;> simp [handleWrite, hq]
      · cases e <;> simp [handleWrite, hq]
  · rfl

theorem handleRead_phase (recv : Except OSError Bytes) (phase : ManagerPhase) :
    ({ m with phase } : Manager).handleRead recv = { m.handleRead recv with
      state := { (m.handleRead recv).state with phase } } := by
  cases recv with
  | ok data => rfl
  | error e => cases e <;> rfl

theorem handleRelayClient_phase (mask : Mask) (io : ClientIO) (phase : ManagerPhase) :
    ({ m with phase } : Manager).handleRelayClient mask io = { m.handleRelayClient mask io with
      state := { (m.handleRelayClient mask io).state with phase } } := by
  rw [handleRelayClient_eq, handleRelayClient_eq, writePart_phase]
  simp only
  split
  · rw [handleRead_phase]
  · rfl

/-- The callback of a manager that is at another point than the one it is compared with. -/
theorem sending_callback (hp : pending ≠ []) (hm : m.Armed) (phase : ManagerPhase) (mask : Mask)
    {io : ClientIO} (hs : sendAllowed io.send (pending ++ m.sendq) = true) :
    Stuck (pending ++ m.sendq) ((m.sending p pending phase).handleRelayClient mask io) ∨
    ∃ pending' send' out, sendAllowed send' m.sendq = true ∧
      m.handleRelayClient (clipMask m.sendq mask) { io with send := send' } = out ∧
      (m.sending p pending phase).handleRelayClient mask io =
        { out with state := out.state.sending p pending' phase } ∧
      (pending' ≠ [] → out.state.sendq = m.sendq) := by
  have hphase := handleRelayClient_phase (m := m.ahead p pending) mask io phase
  rw [show m.sending p pending phase = { m.ahead p pending with phase } from rfl, hphase]
  rcases ahead_callback hp hm mask hs with hstuck | ⟨pending', send', hs', heq, hsame⟩
  · exact .inl hstuck
  · refine .inr ⟨pending', send', _, hs', rfl, ?_, hsame⟩
    rw [heq]
    rfl

/-- What `select` may return while bytes of the announcement wait, it may return without them, but
for write events that are for the announcement only. -/
theorem selectable_clip (hm : m.Armed) {events : List (ManagerKey × Mask)}
    (h : (m.ahead p pending).selectable events = true) :
    m.selectable (events.map fun (key, mask) => (key, clipMask m.sendq mask)) = true := by
  simp only [selectable, Bool.and_eq_true, decide_eq_true_eq, List.all_eq_true] at h ⊢
  refine ⟨?_, fun x hx => ?_⟩
  · rw [List.map_map]
    exact h.1
  · obtain ⟨⟨key, mask⟩, hmem, rfl⟩ := List.mem_map.mp hx
    have hmask := h.2 _ hmem
    cases key with
    | wakeup =>
      simp only [decide_eq_true_eq] at hmask
      simp only [hmask, clipMask]
      split <;> rfl
    | client =>
      by_cases hq : m.sendq = []
      · have hr : m.mask.read = true := by
          rw [hm.mask]
          split <;> rfl
        simp [Mask.le, clipMask, hq, hr]
      · have hrw : m.mask = .rw := by
          rw [hm.mask, if_pos (hm.flag.mpr hq)]
        simp [Mask.le, clipMask, hq, hrw, Mask.rw]

end Manager

namespace Connection
variable {C : Relay → Peer → Prop} {c c' : Connection} {e : Event}

/-! ## The relay is started -/

variable {a : System}

theorem Shadow.single (h : Shadow C c a) : a.server.Single a.relay.identifyingPort :=
  (System.Reachable.single h.reachable).1

/-- The connection beside a later state of the composed system. -/
theorem Shadow.moved {s a' : System} (h : Shadow C c a)
    (hr : System.Reachable (System.OnAccept fun s => C s.relay) a')
    (hport : a'.relay.identifyingPort = a.relay.identifyingPort)
    (hclient : a'.client = { a.client with close := s.client.close })
    (hrange : s.server.portRange = c.sys.server.portRange)
    (hup : s.up = [] ∧ a'.up = []) (hrecvq : a'.server.mgr.recvq = [])
    (htags : s.downTags = a'.downTags ∧ s.upTags = a'.upTags) :
    Shadow C { c with sys := s } a' where
  door := h.door
  authorized := h.authorized
  hello := h.hello
  reachable := hr
  range := by
    simp only [hport, hrange]
    exact h.range
  client := by
    rw [hclient, h.client, hport]
  up := hup
  recvq := hrecvq
  downTags := htags.1
  upTags := htags.2

/-- A step of the relay is taken beside the connection. -/
theorem Shadow.relay {s : System} {action : Relay.RelayAction} {f : Manager → Manager}
    (h : Shadow C c a) (hserver : c.sys.server = a.server.alongside c.sys.server.portRange f)
    (hf : Manager.Inert f) (hC : OnAccept C c (.session (.relay action)))
    (hs : c.sys.relayStep action = some s) : ∃ a', Shadow C { c with sys := s } a' ∧
      s.server = a'.server.alongside s.server.portRange f ∧
      a'.relay.identifyingPort = a.relay.identifyingPort ∧
      (∃ inboundData wakeupPending, a'.server.mgr =
        { a.server.mgr with inboundData, wakeupPending }) ∧
      s.down = c.sys.down ∧ a'.down = a.down := by
  rw [System.relayStep_alongside hserver h.downTags h.upTags h.single.nrelays hf] at hs
  obtain ⟨a', ha, rfl⟩ := Option.map_eq_some_iff.mp hs
  have hrelay : c.sys.relay = a.relay := by
    rw [System.relay, hserver]
    exact Server.alongside_relay
  have ha' : System.step a (.relay action) = some a' := ha
  have hreach : System.Reachable (System.OnAccept fun s => C s.relay) a' := by
    refine .step h.reachable (fun addr he => ?_) ha'
    cases he
    rw [← hrelay]
    exact hC addr rfl
  obtain ⟨r, puts, hr, rfl⟩ := System.relayStep_cases ha
  have hport : r.identifyingPort = a.relay.identifyingPort := (Relay.step_socket hr).port
  refine ⟨_, h.moved hreach ?_ ?_ rfl h.up h.recvq ⟨rfl, rfl⟩, rfl, ?_, ⟨_, _, rfl⟩, rfl, rfl⟩
  · simpa [System.relay] using hport
  · rw [h.client]
  · simpa [System.relay] using hport

/-- The two ends stay as they are but for a close event. -/
theorem Shadow.closing {s a' : System} (h : Shadow C c a)
    (ha : System.step a .serverShutdown = some a' ∧
        s = { c.sys with server := { c.sys.server with closeService := true } } ∨
      System.step a .clientShutdown = some a' ∧
        s = { c.sys with client := { c.sys.client with close := true } }) :
    Shadow C { c with sys := s } a' := by
  have hreach {action : System.Action} (hno : ∀ b, action ≠ .relay b)
      (ha : System.step a action = some a') :
      System.Reachable (System.OnAccept fun s => C s.relay) a' :=
    .step h.reachable (fun addr he => absurd he (hno _)) ha
  rcases ha with ⟨ha, rfl⟩ | ⟨ha, rfl⟩
  · have hr := hreach (by simp) ha
    cases ha
    exact h.moved hr rfl (by rw [h.client]) rfl h.up h.recvq ⟨h.downTags, h.upTags⟩
  · have hr := hreach (by simp) ha
    cases ha
    exact h.moved hr rfl rfl rfl h.up h.recvq ⟨h.downTags, h.upTags⟩

theorem encode_openRelay_ne (p : Int) : encode (OPEN_RELAY p) ≠ [] := by
  refine List.ne_nil_of_length_pos ?_
  rw [encode_openRelay_length]
  exact Nat.succ_pos 4

/-- The announcement of the relay. -/
theorem announce_creating {s : Server} (portRange : Option (Int × Int)) {p : Int}
    (hp : (s.relay 0).identifyingPort = p) (hport : 0 < p ∧ p < 65536) (ha : s.mgr.Armed)
    (hq : s.mgr.sendq = []) (hl : s.mgr.sendLog = []) (hsck : (s.relay 0).sck ≠ .closed) :
    (s.alongside portRange Manager.creating).announce 0 = s.alongside portRange
      (Manager.sending p (encode (OPEN_RELAY p)) .recvLoop) := by
  have hne := encode_openRelay_ne p
  have hwrite : s.mgr.writeEnabled = false := by
    rw [← Bool.not_eq_true, ha.flag]
    exact not_not.mpr hq
  have hser : (OPEN_RELAY p).serialize = .ok (encode (OPEN_RELAY p)) :=
    (wellFormed_openRelay ⟨by omega, by omega⟩).serialize
  have hget : ((s.alongside portRange Manager.creating).relay 0).getPort = .ok p := by
    rw [Server.alongside_relay, Relay.getPort, if_neg hsck, hp]
  unfold Server.announce
  rw [hget]
  change Server.reply _ (OPEN_RELAY p) = _
  unfold Server.reply Manager.send
  rw [hser]
  simp [Server.alongside, Server.withMgr, Manager.creating, Manager.sending, Manager.ahead,
    Manager.addToSendq, hq, hl, hwrite, hne]

theorem Shadow.sends (h : Shadow C c a) (hm : Sends c c') : c'.hello = .gaveUp := by
  cases hm with
  | auth hp => cases hp.symm.trans h.hello
  | create hp => cases hp.symm.trans h.hello
  | fails => rfl

/-- The server has no other relay. -/
theorem Shadow.onlyRelay {rid : Nat} {action : Relay.RelayAction} {f : Manager → Manager}
    {x : Server × List (Nat × QueuedRelayMessage)} (h : Shadow C c a)
    (hserver : c.sys.server = a.server.alongside c.sys.server.portRange f)
    (hs : c.sys.server.relayStep rid action = some x) : rid = 0 := by
  obtain ⟨hrid, -⟩ := Server.relayStep_cases hs
  have hn : c.sys.server.nrelays = a.server.nrelays := by rw [hserver]; rfl
  rw [hn, h.single.nrelays] at hrid
  exact Nat.lt_one_iff.mp hrid

theorem Creating.mgr {action : ManagerAction} {s : System} (h : Creating C c a)
    (hs : c.sys.mgrStep action = some s) : Stage C { c with sys := s } := by
  have hphase : c.sys.server.mgr.phase = .creating 0 := by rw [h.server]; rfl
  cases action with
  | turn =>
    obtain ⟨server, hserver, ⟨io, he, -⟩ | ⟨-, rfl⟩⟩ := System.mgrStep_cases hs
    · cases he
    simp only [Server.mgrStep, hphase] at hserver
    obtain rfl := Option.some.inj hserver
    by_cases hsck : a.relay.sck = .closed
    · -- `get_port` of a relay whose listening socket is closed fails, which breaks out of the loop
      have hclosed : c.sys.server.announce 0 = c.sys.server.recvExcept (.os (.other 9)) := by
        have hget : (c.sys.server.relay 0).getPort = .error (.os (.other 9)) := by
          rw [h.server, Server.alongside_relay, Relay.getPort]
          exact if_pos hsck
        rw [Server.announce, hget]
      have hreplied := Server.recvExcept_replied c.sys.server (.os (.other 9))
      obtain ⟨fs, hsent, hfs⟩ := Server.recvExcept_sent c.sys.server (.os (.other 9))
      have hmgr : c.sys.server.mgr = Manager.creating a.server.mgr := by rw [h.server]; rfl
      rw [hclosed]
      refine .unanswered ⟨h.door, .inr ⟨rfl, h.hello, h.up.1, ?_, fun rid he => ?_⟩, fs,
        fun f hf => ⟨hsent.1 f hf, by simp [hfs f hf]⟩, ?_⟩
      · exact hreplied.recvq.trans (by rw [hmgr]; exact h.recvq)
      · rcases hreplied.phase with hp | hp
        · cases hp.symm.trans he
        · cases hp.symm.trans he
      · have hsendq : c.sys.server.mgr.sendq = [] := by rw [hmgr]; exact h.sendq
        simp only [h.down.1, List.nil_append, hsent.2, hsendq]
    · have hannounce := announce_creating c.sys.server.portRange rfl
        (System.Reachable.single h.reachable).2 (System.Reachable.armed h.reachable) h.sendq
        h.sendLog hsck
      rw [← h.server] at hannounce
      rw [hannounce]
      refine .sending (a := a) ⟨h.toShadow.moved h.reachable rfl ?_ rfl ⟨h.up.1, h.up.2⟩ h.recvq
        ⟨h.downTags, h.upTags⟩, rfl, ?_, fun _ => h.down.2, ?_, fun _ => h.phase,
        fun events he => by cases he⟩
      · rw [h.client]
      · simp only [h.down.1, h.down.2, List.nil_append, List.append_nil]
        rfl
      · exact fun hnil => absurd hnil (encode_openRelay_ne _)
  | _ =>
    have hserver := System.mgrStep_server hs
    simp only [Server.mgrStep, hphase] at hserver
    cases hserver

theorem Creating.step (h : Creating C c a) (hC : OnAccept C c e) (hs : c.step e = some c') :
    Stage C c' := by
  cases step_moves hs with
  | sends hm => exact .gaveUp (h.toShadow.sends hm)
  | receives hm =>
    cases hm with
    | auth hp => cases hp.symm.trans h.hello
    | enters _ hreply hgrab =>
      rw [h.down.1, List.prefix_nil] at hreply
      exact absurd (hreply ▸ hgrab) (grabMsg_nil _)
    | fails => exact .gaveUp rfl
  | greets hd => cases hd.symm.trans h.door
  | mgr _ hm => exact h.mgr hm
  | relay _ hm =>
    obtain ⟨a', hshadow, hserver, hport, ⟨inboundData, wakeupPending, hmgr⟩, hdown, hdown'⟩ :=
      h.toShadow.relay h.server inert_creating hC hm
    refine .creating ⟨hshadow, hserver, ?_, ?_, ?_, hdown.trans h.down.1, hdown'.trans h.down.2⟩
    · rw [hmgr]; exact h.phase
    · rw [hmgr]; exact h.sendq
    · rw [hmgr]; exact h.sendLog
  | otherRelay _ hrid hm => exact absurd (h.toShadow.onlyRelay h.server hm) hrid
  | remote he | proxy he => cases he.symm.trans h.hello
  | serverShutdown =>
    refine .creating ⟨h.toShadow.closing (.inl ⟨rfl, rfl⟩), ?_, h.phase, h.sendq, h.sendLog,
      h.down⟩
    rw [h.server]
    rfl
  | clientShutdown =>
    exact .creating ⟨h.toShadow.closing (.inr ⟨rfl, rfl⟩), h.server, h.phase, h.sendq, h.sendLog,
      h.down⟩

/-! ## The relay is announced -/

/-- A step of the management thread is taken beside the connection. -/
theorem Shadow.mgr {action action' : ManagerAction} {s a' : System} (h : Shadow C c a)
    (hs : c.sys.mgrStep action = some s) (ha : a.mgrStep action' = some a') :
    Shadow C { c with sys := s } a' ∧ a'.relay.identifyingPort = a.relay.identifyingPort := by
  have hserver := System.mgrStep_server ha
  obtain ⟨hn, hkept⟩ := Server.mgrStep_relaysKept hserver
  obtain ⟨_, _, _, _, hrelay⟩ := hkept 0 (by rw [h.single.nrelays]; exact Nat.one_pos)
  have hport : a'.relay.identifyingPort = a.relay.identifyingPort := by
    rw [System.relay, hrelay]
    rfl
  have hup {t t' : System} {b : ManagerAction} (ht : t.mgrStep b = some t') (hup : t.up = []) :
      t'.up = [] := by
    obtain ⟨server, -, ⟨io, -, -, rfl⟩ | ⟨-, rfl⟩⟩ := System.mgrStep_cases ht
    · simp [hup]
    · exact hup
  have hrecvq : a'.server.mgr.recvq = [] := by
    by_cases hio : ∃ io, action' = .clientIo io
    · obtain ⟨io, rfl⟩ := hio
      obtain ⟨-, hbytes⟩ := System.clientIo_streams ha
      rw [h.recvq, h.up.2] at hbytes
      exact (List.append_eq_nil_iff.mp hbytes).1
    · have hsteady := h.single.peaceful.steady
      refine (Server.mgrStep_unasked h.recvq (fun rid he => ?_)
        (fun io he => hio ⟨io, he⟩) hserver).1
      rw [he] at hsteady
      cases hsteady
  obtain ⟨hd, hu⟩ := System.mgrStep_tags hs
  obtain ⟨hd', hu'⟩ := System.mgrStep_tags ha
  have ha' : System.step a (.mgr action') = some a' := ha
  refine ⟨h.moved (.step h.reachable (fun addr he => by cases he) ha') hport
    ?_ (Server.mgrStep_portRange (System.mgrStep_server hs)) ⟨hup hs h.up.1, hup ha h.up.2⟩ hrecvq
    ⟨?_, ?_⟩, hport⟩
  · rw [System.mgrStep_client hs, System.mgrStep_client ha, h.client]
  · rw [hd, hd', h.downTags]
  · rw [hu, hu', h.upTags]

variable {pending : Bytes} {phase : ManagerPhase}

/-- A step of the management thread that leaves `pending'` of the announcement. -/
theorem Sending.moved {action action' : ManagerAction} {s a' : System} {pending' : Bytes}
    {phase' : ManagerPhase} (h : Sending C c a pending phase) (hs : c.sys.mgrStep action = some s)
    (ha : a.mgrStep action' = some a')
    (hserver : s.server = a'.server.alongside c.sys.server.portRange
      (Manager.sending a.relay.identifyingPort pending' phase'))
    (hbytes : s.down ++ pending' = encode (OPEN_RELAY a.relay.identifyingPort) ++ a'.down)
    (hdown : pending' ≠ [] → a'.down = [])
    (hsent : pending' = [] → a'.server.mgr.phase = phase')
    (hclipped : pending' ≠ [] → a'.server.mgr.phase = phase'.clip a'.server.mgr.sendq) :
    Stage C { c with sys := s } := by
  obtain ⟨hshadow, hport⟩ := h.toShadow.mgr hs ha
  have hphase : c.sys.server.mgr.phase = phase := by rw [h.server]; rfl
  have hphase' : s.server.mgr.phase = phase' := by rw [hserver]; rfl
  have hselected := Server.mgrStep_selected (System.mgrStep_server hs) (hphase ▸ h.selected)
  have hrange : s.server.portRange = c.sys.server.portRange := by rw [hserver]; rfl
  refine .sending ⟨hshadow, ?_, ?_, hdown, hsent, hclipped, hphase' ▸ hselected⟩
  · rw [hport]
    simp only [hrange]
    exact hserver
  · rw [hport]
    exact hbytes

/-- The callback of the management socket. -/
theorem Sending.called {nio nio' : ClientIO} {s : System} {server : Server} {pending' : Bytes}
    {phase' : ManagerPhase} (h : Sending C c a pending phase)
    (hs : c.sys.mgrStep (.clientIo nio) = some s)
    (ha : a.server.mgrStep (.clientIo nio') = some server)
    (hserver : s.server = server.alongside c.sys.server.portRange
      (Manager.sending a.relay.identifyingPort pending' phase'))
    (hkept : pending' ≠ [] → pending ≠ [] ∧ server.mgr.sendq = a.server.mgr.sendq)
    (hsent : pending' = [] → server.mgr.phase = phase')
    (hclipped : pending' ≠ [] → server.mgr.phase = phase'.clip server.mgr.sendq) :
    Stage C { c with sys := s } := by
  have hmgr : c.sys.server.mgr =
    Manager.sending a.relay.identifyingPort pending phase a.server.mgr := by rw [h.server]; rfl
  have hpre : System.receivedBy a.server.mgr.recvq server.mgr.recvq <+: a.up := by
    obtain ⟨server', hserver', ⟨-, -, hpre, rfl⟩ | ⟨hio, -⟩⟩ := System.mgrStep_cases hs
    · simp only at hserver
      rw [h.up.1, hmgr, hserver] at hpre
      rw [h.up.2]
      exact hpre
    · exact absurd rfl (hio nio)
  have ha' : a.mgrStep (.clientIo nio') = some { a with
      server
      down := a.down ++ System.sentBy a.server.mgr.sendq server.mgr.sendq
      up := a.up.drop (System.receivedBy a.server.mgr.recvq server.mgr.recvq).length } := by
    simp only [System.mgrStep, ha, if_pos hpre]
  have hstream := (System.clientIo_streams hs).1
  have hstream' := (System.clientIo_streams ha').1
  simp only at hstream'
  refine h.moved hs ha' hserver ?_ (fun hp => ?_) hsent hclipped
  · refine (List.append_left_inj server.mgr.sendq).mp ?_
    calc s.down ++ pending' ++ server.mgr.sendq
        = s.down ++ s.server.mgr.sendq := by rw [hserver, List.append_assoc]; rfl
      _ = c.sys.down ++ c.sys.server.mgr.sendq := hstream
      _ = c.sys.down ++ pending ++ a.server.mgr.sendq := by rw [hmgr, List.append_assoc]; rfl
      _ = encode (OPEN_RELAY a.relay.identifyingPort) ++ (a.down ++ a.server.mgr.sendq) := by
        rw [h.bytes, List.append_assoc]
      _ = _ := by rw [← hstream', ← List.append_assoc]
  · obtain ⟨hpending, hsame⟩ := hkept hp
    rw [hsame] at hstream'
    simp only
    rw [hsame, (List.append_left_inj _).mp hstream', h.down hpending]

/-- A step of the thread that is no callback of the management socket. -/
theorem Sending.uncalled {action action' : ManagerAction} {s : System} {server : Server}
    (h : Sending C c a pending phase) (phase' : ManagerPhase)
    (hio : (∀ io, action ≠ .clientIo io) ∧ ∀ io, action' ≠ .clientIo io)
    (hs : c.sys.mgrStep action = some s) (ha : a.server.mgrStep action' = some server)
    (hserver : s.server = server.alongside c.sys.server.portRange
      (Manager.sending a.relay.identifyingPort pending phase'))
    (hsent : pending = [] → server.mgr.phase = phase')
    (hclipped : pending ≠ [] → server.mgr.phase = phase'.clip server.mgr.sendq) :
    Stage C { c with sys := s } := by
  have ha' := System.mgrStep_of_server hio.2 ha
  refine h.moved hs ha' hserver ?_ h.down hsent hclipped
  obtain ⟨server', -, ⟨io, rfl, -⟩ | ⟨-, rfl⟩⟩ := System.mgrStep_cases hs
  · exact absurd rfl (hio.1 io)
  · exact h.bytes

/-- The two threads are at the same point, and the step is about nothing but `sendq`. -/
theorem Sending.alike {action : ManagerAction} {s : System} (h : Sending C c a pending phase)
    (hp : a.server.mgr.phase = phase)
    (hio : pending = [] ∨ (∀ events, action ≠ .select events) ∧ ∀ io, action ≠ .clientIo io)
    (hd : pending ≠ [] → ∀ events, phase ≠ .dispatch events)
    (hs : c.sys.mgrStep action = some s) : Stage C { c with sys := s } := by
  obtain rfl := hp
  have hserver := System.mgrStep_server hs
  have hahead : c.sys.server = a.server.ahead c.sys.server.portRange
    a.relay.identifyingPort pending := h.server
  rw [hahead, h.single.mgrStep hio] at hserver
  obtain ⟨server, ha, hsv⟩ := Option.map_eq_some_iff.mp hserver
  by_cases hclient : ∃ nio, action = .clientIo nio
  · obtain ⟨nio, rfl⟩ := hclient
    obtain rfl : pending = [] := hio.resolve_right fun hn => hn.2 nio rfl
    exact h.called hs ha hsv.symm (fun hp => absurd rfl hp) (fun _ => rfl)
      fun hp => absurd rfl hp
  · have hclient : ∀ nio, action ≠ .clientIo nio := fun nio he => hclient ⟨nio, he⟩
    refine h.uncalled _ ⟨hclient, hclient⟩ hs ha hsv.symm (fun _ => rfl) fun hp => ?_
    refine (ManagerPhase.clip_idle _ fun events he => ?_).symm
    rcases Server.mgrStep_dispatch ha he with ⟨rfl, -⟩ | ⟨event, hphase⟩
    · exact (hio.resolve_left hp).1 events rfl
    · exact hd hp _ hphase

/-- `select` returns while bytes of the announcement wait. -/
theorem Sending.selects {events : List (ManagerKey × Mask)} {s : System}
    (h : Sending C c a pending .top) (hp : pending ≠ [])
    (hs : c.sys.mgrStep (.select events) = some s) : Stage C { c with sys := s } := by
  have hphase : c.sys.server.mgr.phase = .top := by rw [h.server]; rfl
  have hphase' : a.server.mgr.phase = .top := h.clipped hp
  have hserver := System.mgrStep_server hs
  simp only [Server.mgrStep, hphase, Option.ite_none_right_eq_some, Bool.and_eq_true,
    Option.some.injEq] at hserver
  obtain ⟨⟨⟨hservice, hthread⟩, hsel⟩, hsv⟩ := hserver
  rw [h.server] at hservice hthread hsel
  have hclip : a.server.mgr.selectable (events.map fun (key, mask) =>
      (key, Manager.clipMask a.server.mgr.sendq mask)) = true :=
    Manager.selectable_clip (p := a.relay.identifyingPort) (System.Reachable.armed h.reachable)
      hsel
  have ha : a.server.mgrStep (.select (events.map fun (key, mask) =>
      (key, Manager.clipMask a.server.mgr.sendq mask))) =
      some (a.server.goto ((ManagerPhase.dispatch events).clip a.server.mgr.sendq)) := by
    simp only [Server.mgrStep, hphase', hclip, Bool.and_true]
    exact if_pos (Bool.and_eq_true_iff.mpr ⟨hservice, hthread⟩)
  refine h.uncalled (.dispatch events) ⟨by simp, by simp⟩ hs ha ?_ (fun hnil => absurd hnil hp)
    fun _ => rfl
  rw [← hsv, h.server]
  rfl

/-- The management socket is called back while bytes of the announcement wait. -/
theorem Sending.callsBack {mask : Mask} {events : List (ManagerKey × Mask)} {nio : ClientIO}
    {s : System} (h : Sending C c a pending (.dispatch ((.client, mask) :: events)))
    (hp : pending ≠ []) (hs : c.sys.mgrStep (.clientIo nio) = some s) :
    Stage C { c with sys := s } := by
  have hmgr : c.sys.server.mgr = Manager.sending a.relay.identifyingPort pending
    (.dispatch ((.client, mask) :: events)) a.server.mgr := by rw [h.server]; rfl
  have hphase : c.sys.server.mgr.phase = .dispatch ((.client, mask) :: events) := by rw [hmgr]; rfl
  have hphase' := h.clipped hp
  have hserver := System.mgrStep_server hs
  simp only [Server.mgrStep, hphase, Option.ite_none_right_eq_some, Bool.and_eq_true,
    Option.some.injEq] at hserver
  obtain ⟨⟨hsend, hrecv⟩, hsv⟩ := hserver
  have hsendq : c.sys.server.mgr.sendq = pending ++ a.server.mgr.sendq := by rw [hmgr]; rfl
  rw [hsendq] at hsend
  have hclip := ManagerPhase.clip_selected a.server.mgr.sendq h.selected rfl
  rcases Manager.sending_callback (p := a.relay.identifyingPort) hp
      (System.Reachable.armed h.reachable) (.dispatch ((.client, mask) :: events)) mask hsend with
    hstuck | ⟨pending', send', out, hsend', hout, heq, hsame⟩
  · rw [← hmgr] at hstuck
    generalize c.sys.server.mgr.handleRelayClient mask nio = out at hstuck hsv
    obtain ⟨hq, hends⟩ := hstuck
    have hstream := (System.clientIo_streams hs).1
    simp only [← hsv, Server.withMgr_mgr, hq, hsendq] at hstream
    have hdown := (List.append_left_inj _).mp hstream
    have hshort : s.down.length < 5 := by
      have hlen := congrArg List.length h.bytes
      rw [h.down hp, List.append_nil, List.length_append, encode_openRelay_length] at hlen
      have hpos := List.length_pos_iff.mpr hp
      rw [hdown]
      omega
    refine .silent ⟨by simp [h.hello], hshort, .inr ⟨h.door, ?_⟩⟩
    simp only [← hsv, Server.withMgr_mgr]
    cases hraised : out.raised with
    | some e => trivial
    | none =>
      have hclose : out.state.closeThread = true := hends.resolve_left (by simp [hraised])
      refine .of_close hclose fun events' he => ?_
      cases he
      exact (List.nodup_cons.mp (h.selected _ rfl).1).1
  · cases hraised : out.raised with
    | none =>
      have ha : a.server.mgrStep (.clientIo { nio with send := send' }) =
          some (a.server.withMgr { out.state with
            phase := (ManagerPhase.dispatch events).clip a.server.mgr.sendq }) := by
        simp only [Server.mgrStep, hphase', ManagerPhase.clip, List.map_cons, hout, hraised,
          hsend', hrecv, Bool.and_self, if_true]
      refine h.called hs ha ?_ (fun hp' => ⟨hp, hsame hp'⟩) (fun _ => hclip) fun hp' => ?_
      · rw [← hsv, hmgr, heq, hraised, h.server]
        rfl
      · simp only [Server.withMgr_mgr, hsame hp']
    | some e =>
      have ha : a.server.mgrStep (.clientIo { nio with send := send' }) =
          some (a.server.withMgr { out.state with phase := .crashed e }) := by
        simp only [Server.mgrStep, hphase', ManagerPhase.clip, List.map_cons, hout, hraised,
          hsend', hrecv, Bool.and_self, if_true]
      refine h.called hs ha ?_ (fun hp' => ⟨hp, hsame hp'⟩) (fun _ => rfl) fun _ => rfl
      rw [← hsv, hmgr, heq, hraised, h.server]
      rfl

theorem Sending.dispatches {action : ManagerAction} {events : List (ManagerKey × Mask)}
    {s : System} (h : Sending C c a pending (.dispatch events)) (hp : pending ≠ [])
    (hs : c.sys.mgrStep action = some s) : Stage C { c with sys := s } := by
  have hphase : c.sys.server.mgr.phase = .dispatch events := by rw [h.server]; rfl
  have hphase' := h.clipped hp
  have hserver := System.mgrStep_server hs
  cases events with
  | nil =>
    cases action with
    | turn =>
      have ha : a.server.mgrStep .turn = some (a.server.goto .recvLoop) := by
        simp only [Server.mgrStep, hphase', ManagerPhase.clip, List.map_nil]
      simp only [Server.mgrStep, hphase, Option.some.injEq] at hserver
      refine h.uncalled .recvLoop ⟨by simp, by simp⟩ hs ha ?_ (fun hnil => absurd hnil hp)
        fun _ => rfl
      rw [← hserver, h.server]
      rfl
    | _ =>
      simp only [Server.mgrStep, hphase] at hserver
      cases hserver
  | cons event events =>
    obtain ⟨key, mask⟩ := event
    cases key with
    | wakeup =>
      cases action with
      | wakeupRead eof =>
        have ha : a.server.mgrStep (.wakeupRead eof) = some (a.server.withMgr { a.server.mgr with
            phase := (ManagerPhase.dispatch events).clip a.server.mgr.sendq, wakeupPending := false
            closeThread := a.server.mgr.closeThread || eof }) := by
          simp only [Server.mgrStep, hphase', ManagerPhase.clip, List.map_cons]
        simp only [Server.mgrStep, hphase, Option.some.injEq] at hserver
        refine h.uncalled (.dispatch events) ⟨by simp, by simp⟩ hs ha ?_
          (fun hnil => absurd hnil hp) fun _ => rfl
        rw [← hserver, h.server]
        rfl
      | _ =>
        simp only [Server.mgrStep, hphase] at hserver
        cases hserver
    | client =>
      cases action with
      | clientIo nio => exact h.callsBack hp hs
      | _ =>
        simp only [Server.mgrStep, hphase] at hserver
        cases hserver

theorem Sending.mgr {action : ManagerAction} {s : System} (h : Sending C c a pending phase)
    (hs : c.sys.mgrStep action = some s) : Stage C { c with sys := s } := by
  by_cases hp : pending = []
  · exact h.alike (h.sent hp) (.inl hp) (fun hne => absurd hp hne) hs
  · have hphase := h.clipped hp
    have hat : c.sys.server.mgr.phase = phase := by rw [h.server]; rfl
    by_cases hd : ∃ events, phase = .dispatch events
    · obtain ⟨events, rfl⟩ := hd
      exact h.dispatches hp hs
    · have hd : ∀ events, phase ≠ .dispatch events := fun events he => hd ⟨events, he⟩
      rw [ManagerPhase.clip_idle _ hd] at hphase
      by_cases hsel : ∃ events, action = .select events
      · obtain ⟨events, rfl⟩ := hsel
        have htop := Server.mgrStep_atTop (System.mgrStep_server hs)
        obtain rfl : phase = .top := hat.symm.trans htop
        exact h.selects hp hs
      · refine h.alike hphase (.inr ⟨fun events he => hsel ⟨events, he⟩, fun nio he => ?_⟩)
          (fun _ => hd) hs
        subst he
        obtain ⟨events, he⟩ := Server.mgrStep_atDispatch (System.mgrStep_server hs)
        exact hd events (hat.symm.trans he)

/-- The client goes on behind OPEN_RELAY. -/
theorem Sending.enters {reply rest : Bytes} {m : PortPortMessage} (h : Sending C c a pending phase)
    (hreply : reply <+: c.sys.down) (hgrab : grabMsg reply = .ok (m, rest))
    (ht : m.msgType = .openRelay) (io : HandshakeIO) :
    Entered C { c with
      io, hello := .entered, remotePort := m.relayPort, lost := rest
      sys := { c.sys with
        down := c.sys.down.drop reply.length
        client := { (RemoteRun.start m.relayPort).client with
          close := c.sys.client.close } } } := by
  obtain ⟨hm, heq⟩ := reply_openRelay hgrab ht
  obtain ⟨x, hx⟩ := hreply
  have hlen := openRelay_length hgrab ht
  have hnil : pending = [] := by
    by_contra hp
    have hbytes := congrArg List.length h.bytes
    rw [h.down hp, ← hx, List.append_nil, encode_openRelay_length] at hbytes
    have hpos := List.length_pos_iff.mpr hp
    simp only [List.length_append] at hbytes
    omega
  subst hnil
  -- the announcement is the first frame on the stream, and it is what the client has read
  have hport := (System.Reachable.single h.reachable).2
  have hbytes : encode m ++ (rest ++ x) =
      encode (OPEN_RELAY a.relay.identifyingPort) ++ a.down := by
    rw [← h.bytes, List.append_nil, ← hx, heq, List.append_assoc]
  have hwf : WellFormed (OPEN_RELAY a.relay.identifyingPort) :=
    wellFormed_openRelay ⟨by omega, by omega⟩
  have hwfm : WellFormed m := .of_deserialize (by simp [ht]) hgrab
  have hgot := grabMsg_encode hwfm (rest ++ x)
  rw [hbytes, grabMsg_encode hwf] at hgot
  obtain ⟨hma, hdown⟩ := Prod.mk.inj (Except.ok.inj hgot)
  subst hma
  refine ⟨rfl, h.door, h.authorized, h.range, ⟨0, ?_, ?_⟩, fun hrest => ⟨a, h.reachable, rfl, ?_⟩⟩
  · simp only
    rw [h.server]
    exact h.single.nrelays ▸ Nat.one_pos
  · simp only
    rw [h.server, Server.alongside_relay]
    rfl
  · simp only at hrest
    subst hrest
    obtain rfl := h.sent rfl
    have hrest : c.sys.down.drop reply.length = a.down := by
      rw [← hx, List.drop_left]
      exact hdown.symm
    have hahead : c.sys.server = a.server.ahead c.sys.server.portRange
      a.relay.identifyingPort [] := h.server
    simp only [hrest, h.downTags, h.upTags, OPEN_RELAY]
    rw [h.up.1, ← h.up.2, System.ahead, ← hahead, ← h.client]

theorem Sending.step (h : Sending C c a pending phase) (hC : OnAccept C c e)
    (hs : c.step e = some c') : Stage C c' := by
  cases step_moves hs with
  | sends hm => exact .gaveUp (h.toShadow.sends hm)
  | receives hm =>
    cases hm with
    | auth hp => cases hp.symm.trans h.hello
    | enters _ hreply hgrab ht io => exact .entered (h.enters hreply hgrab ht io)
    | fails => exact .gaveUp rfl
  | greets hd => cases hd.symm.trans h.door
  | mgr _ hm => exact h.mgr hm
  | relay _ hm =>
    obtain ⟨a', hshadow, hserver, hport, ⟨inboundData, wakeupPending, hmgr⟩, hdown, hdown'⟩ :=
      h.toShadow.relay h.server (inert_sending ..) hC hm
    refine .sending ⟨hshadow, hport ▸ hserver, ?_, ?_, ?_, ?_, h.selected⟩
    · rw [hdown, hdown', hport]
      exact h.bytes
    · rw [hdown']
      exact h.down
    · rw [hmgr]
      exact h.sent
    · rw [hmgr]
      exact h.clipped
  | otherRelay _ hrid hm => exact absurd (h.toShadow.onlyRelay h.server hm) hrid
  | remote he | proxy he => cases he.symm.trans h.hello
  | serverShutdown =>
    refine .sending ⟨h.toShadow.closing (.inl ⟨rfl, rfl⟩), ?_, h.bytes, h.down, h.sent, h.clipped,
      h.selected⟩
    rw [h.server]
    rfl
  | clientShutdown =>
    exact .sending ⟨h.toShadow.closing (.inr ⟨rfl, rfl⟩), h.server, h.bytes, h.down, h.sent,
      h.clipped, h.selected⟩

/-! ## The client is in its loop -/

end Connection

/-- The server still has each relay it had, on its port. -/
def Server.PortsKept (s s' : Server) : Prop := s'.portRange = s.portRange ∧
  s.nrelays ≤ s'.nrelays ∧
    ∀ rid < s.nrelays, (s'.relay rid).identifyingPort = (s.relay rid).identifyingPort

theorem Server.PortsKept.refl (s : Server) : s.PortsKept s := ⟨rfl, Nat.le_refl _, fun _ _ => rfl⟩

theorem Server.mgrStep_portsKept {s s' : Server} {a : ManagerAction} (h : s.mgrStep a = some s') :
    s.PortsKept s' := by
  obtain ⟨hn, hkept⟩ := mgrStep_relaysKept h
  refine ⟨mgrStep_portRange h, hn, fun rid hrid => ?_⟩
  obtain ⟨outbound, atomicClose, wakeupPending, woken, hrelay⟩ := hkept rid hrid
  rw [hrelay]

theorem Server.relayStep_portsKept {s : Server} {rid : Nat} {a : Relay.RelayAction}
    {x : Server × List (Nat × QueuedRelayMessage)} (h : s.relayStep rid a = some x) :
    s.PortsKept x.1 := by
  obtain ⟨s', puts⟩ := x
  obtain ⟨-, -, r, hr, rfl⟩ := relayStep_cases h
  refine ⟨rfl, Nat.le_refl _, fun i _ => ?_⟩
  rw [relayMoved_relay]
  by_cases hi : i = rid
  · subst hi
    rw [Function.update_self, (Relay.step_socket hr).port]
  · rw [Function.update_of_ne hi]

theorem System.step_portsKept {s s' : System} {a : System.Action} (h : s.step a = some s') :
    s.server.PortsKept s'.server := by
  cases a with
  | mgr a => exact Server.mgrStep_portsKept (mgrStep_server h)
  | relay a =>
    obtain ⟨x, hx, rfl⟩ := Option.map_eq_some_iff.mp h
    exact Server.relayStep_portsKept hx
  | remote a =>
    rw [remoteStep_server h]
    exact .refl _
  | proxy a =>
    obtain ⟨-, l, puts, -, rfl⟩ := proxyStep_cases h
    exact .refl _
  | serverShutdown | clientShutdown =>
    cases h
    exact ⟨rfl, Nat.le_refl _, fun _ _ => rfl⟩

namespace Connection

theorem Entered.moved {s : System} (h : Entered C c) (hkept : c.sys.server.PortsKept s.server)
    (hsession : ∀ a, System.Reachable (System.OnAccept fun s => C s.relay) a →
      a.relay.identifyingPort = c.remotePort → c.sys = a.ahead c.sys.server.portRange c.remotePort →
      ∃ a', System.Reachable (System.OnAccept fun s => C s.relay) a' ∧
        a'.relay.identifyingPort = c.remotePort ∧
        s = a'.ahead c.sys.server.portRange c.remotePort) :
    Entered C { c with sys := s } := by
  obtain ⟨hrange, hn, hports⟩ := hkept
  refine ⟨h.hello, h.door, h.authorized, ?_, ?_, fun hlost => ?_⟩
  · simp only [hrange]
    exact h.range
  · obtain ⟨rid, hrid, hport⟩ := h.relay
    exact ⟨rid, Nat.lt_of_lt_of_le hrid hn, (hports rid hrid).trans hport⟩
  · obtain ⟨a, ha, hport, hsys⟩ := h.session hlost
    simp only [hrange]
    exact hsession a ha hport hsys

/-- A step behind the handshake is one of the composed system. -/
theorem Entered.session_step {action : System.Action} {s : System} (h : Entered C c)
    (hC : OnAccept C c (.session action)) (hs : c.sys.step action = some s) :
    Entered C { c with sys := s } := by
  refine h.moved (System.step_portsKept hs) fun a ha hport hsys => ?_
  obtain ⟨hsingle, -⟩ := System.Reachable.single ha
  rw [hport] at hsingle
  rw [hsys, System.step_ahead hsingle] at hs
  obtain ⟨a', ha', rfl⟩ := Option.map_eq_some_iff.mp hs
  have hrelay : c.sys.relay = a.relay := by
    rw [hsys]
    exact Server.ahead_relay
  have hports := (System.step_portsKept ha').2.2 0 (by rw [hsingle.nrelays]; exact Nat.one_pos)
  refine ⟨a', .step ha (fun addr he => ?_) ha', hports.trans hport, ?_⟩
  · simp only [← hrelay]
    exact hC addr (congrArg Event.session he)
  · rw [hsys]

theorem Entered.step (h : Entered C c) (hC : OnAccept C c e) (hs : c.step e = some c') :
    Entered C c' := by
  cases step_moves hs with
  | sends hm =>
    cases hm with
    | auth hp => cases hp.symm.trans h.hello
    | create hp => cases hp.symm.trans h.hello
    | fails hp => exact absurd h.hello hp
  | receives hm =>
    cases hm with
    | auth hp => cases hp.symm.trans h.hello
    | enters hp => cases hp.symm.trans h.hello
    | fails hp => exact absurd h.hello hp
  | greets hd => cases hd.symm.trans h.door
  | mgr _ hm | relay _ hm | remote _ hm | proxy _ hm => exact h.session_step hC hm
  | serverShutdown | clientShutdown => exact h.session_step hC rfl
  | otherRelay _ hrid hm =>
    refine h.moved (Server.relayStep_portsKept hm) fun a ha hport hsys => ?_
    obtain ⟨hlt, -⟩ := Server.relayStep_cases hm
    rw [hsys] at hlt
    have hn := (System.Reachable.single ha).1.nrelays
    exact absurd (Nat.lt_one_iff.mp (hn ▸ hlt)) hrid

/-- Every connection is at one of the stages. -/
theorem Reachable.stage (h : Reachable C c) : Stage C c := by
  refine Transition.Reach.invariant (J := Stage C) ?_ ?_ h
  · rintro _ ⟨mgmt, portRange, auth, skipAuth, rfl⟩
    refine .waiting ⟨rfl, rfl, rfl, ?_, rfl, rfl⟩
    cases skipAuth with
    | false => exact .inl ⟨rfl, rfl, rfl⟩
    | true => exact .inr (.inr (.inl ⟨rfl, rfl, rfl⟩))
  · rintro c e c' hI ⟨hw, hC⟩ hs
    cases hI with
    | gaveUp h => exact .gaveUp (gaveUp_step h hs)
    | waiting h => exact h.step hw hs
    | silent h => exact h.step hs
    | unanswered h => exact h.step hs
    | admitted h => exact h.step hs
    | creating h => exact h.step hC hs
    | sending h => exact h.step hC hs
    | entered h => exact .entered (h.step hC hs)

theorem Reachable.entered (h : Reachable C c) (he : c.hello = .entered) : Entered C c := by
  cases h.stage with
  | gaveUp h => cases h.symm.trans he
  | waiting h => exact absurd he h.hello_ne
  | silent h => exact absurd he h.hello
  | unanswered h => rcases h.hello with ⟨-, hh | hh⟩ | ⟨-, hh, -⟩ <;> cases he.symm.trans hh
  | admitted h => exact absurd he h.hello_ne
  | creating h => cases he.symm.trans h.hello
  | sending h => cases he.symm.trans h.hello
  | entered h => exact h

/-! ## From the first byte on -/

/-- A client whose token is checked is told the port of a relay. -/
def helloRun : List Event :=
  [.sendall (.ok ()) 0,
    .newcomer { accept := .ok System.Run.peer, wrap := .ok (), recv := .ok (authFrame "ab"),
                sendall := .ok () } 0,
    .recv (.ok (encode AUTH_SUCCESS)), .sendall (.ok ()) 0,
    .session (.mgr (.select [(.client, .r)])),
    .session (.mgr (.clientIo { send := .ok 0, recv := .ok (encode CREATE_RELAY) })),
    .session (.mgr .turn), .session (.mgr (.recvTurn [.bound 4000])),
    .session (.mgr .turn), .session (.mgr (.recvTurn [])), .session (.mgr .turn),
    .session (.mgr (.select [(.client, ⟨false, true⟩)])),
    .session (.mgr (.clientIo { send := .ok 5, recv := .ok [] })),
    .session (.mgr .turn), .session (.mgr (.recvTurn [])), .session (.mgr .turn),
    .recv (.ok (encode (OPEN_RELAY 4000)))]

def helloStart : Connection := start { authToken := "ab" } none "ab" false

theorem Reachable.of_hello {es : List Event}
    (h : Transition.exec step (fun c e => c.wholeAuth e) helloStart es = some c) :
    Reachable (fun _ _ => True) c :=
  .exec (fun _ _ htest => ⟨htest, fun _ _ => trivial⟩) (.init ⟨_, _, _, _, rfl⟩) h

/-- A client gets into its loop only if the two ends agree on whether to authenticate and the
server's token is what the client's AUTH frame announces of its own, and then with the port of a
relay of this server, in the operator's range. -/
theorem entered_authorized (h : Reachable C c) (he : c.hello = .entered) :
    c.Authorized ∧ InRange c.sys.server.portRange c.remotePort ∧
      ∃ rid < c.sys.server.nrelays, (c.sys.server.relay rid).identifyingPort = c.remotePort :=
  ⟨(h.entered he).authorized, (h.entered he).range, (h.entered he).relay⟩

theorem entered_authorized_hello : ∃ c,
    Transition.exec step (fun c e => c.wholeAuth e) helloStart helloRun = some c ∧
      c.remotePort = 4000 ∧ c.Authorized := by
  have hx : (Transition.exec step (fun c e => c.wholeAuth e) helloStart helloRun).map
      (fun c => (c.hello, c.remotePort)) = some (.entered, 4000) := by
    decide +kernel
  obtain ⟨c, hc, hseen⟩ := Option.map_eq_some_iff.mp hx
  obtain ⟨he, hport⟩ := Prod.mk.inj hseen
  exact ⟨c, hc, hport, (entered_authorized (Reachable.of_hello hc) he).1⟩

/-- From the moment the client is in its loop, the connection is in a state of the composed system,
with the announcement of the relay in the log of the server, if `grab_msg` has left nothing behind
OPEN_RELAY. -/
theorem refines_session (h : Reachable C c) (he : c.hello = .entered) (hl : c.lost = []) :
    ∃ a, System.Reachable (System.OnAccept fun s => C s.relay) a ∧
      c.sys = a.ahead c.sys.server.portRange c.remotePort := by
  obtain ⟨a, ha, -, hsys⟩ := (h.entered he).session hl
  exact ⟨a, ha, hsys⟩

/-- Behind the handshake the relay accepts a connection and its first bytes reach the client. -/
theorem refines_session_hello : ∃ c, Transition.exec step (fun c e => c.wholeAuth e) helloStart
      (helloRun ++ System.Run.firstBytes.map Event.session) = some c ∧
    c.sys.client.remote.recvq = [64, 3, 1] ∧
    ∃ a, System.Reachable (System.OnAccept fun _ _ => True) a ∧
      c.sys = a.ahead c.sys.server.portRange 4000 := by
  have hx : (Transition.exec step (fun c e => c.wholeAuth e) helloStart
      (helloRun ++ System.Run.firstBytes.map Event.session)).map
      (fun c => (c.hello, c.lost, c.remotePort, c.sys.client.remote.recvq)) =
        some (.entered, [], 4000, [64, 3, 1]) := by
    decide +kernel
  obtain ⟨c, hc, hseen⟩ := Option.map_eq_some_iff.mp hx
  simp only [Prod.mk.injEq] at hseen
  obtain ⟨he, hl, hport, hrecvq⟩ := hseen
  obtain ⟨a, ha, hsys⟩ := refines_session (Reachable.of_hello hc) he hl
  exact ⟨c, hc, hrecvq, a, ha, hport ▸ hsys⟩

end Connection
end PortPort
