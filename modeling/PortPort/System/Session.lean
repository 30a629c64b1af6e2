import PortPort.Server.FramesHandled
import PortPort.Server.ManagerEnd
import PortPort.System.Agreement
import PortPort.System.ManagerFrames

/-! # A session between the two ends

Behind the handshake the two ends send each other nothing but frames about connections of the one
relay, and neither ever raises an exception but that for a frame cut short. -/

namespace PortPort
open PortPortMessage Framing
open Tunnel (State)

/-! ## The end of a stream of frames -/

/-- What `grab_msg` refuses of a buffer that begins a stream of frames is a frame cut short. -/
theorem cut_of_stream {recvq rest : Bytes} {fs : List PortPortMessage} {e : PyError}
    (hfs : ∀ m ∈ fs, WellFormed m) (hs : recvq ++ rest = fs.flatMap encode)
    (h : grabMsg recvq = .error e) : Cut recvq := by
  cases fs with
  | nil =>
    have hnil : recvq = [] := (List.append_eq_nil_iff.mp hs).1
    exact hnil ▸ ⟨{ msgType := .createRelay }, ⟨rfl, trivial, rfl, by simp⟩, List.nil_prefix,
      by simp [encode, headerBytes]⟩
  | cons m fs =>
    have hm := hfs m List.mem_cons_self
    have hpre : recvq <+: encode m ++ fs.flatMap encode := ⟨rest, hs⟩
    by_cases hle : encode m <+: recvq
    · obtain ⟨x, rfl⟩ := hle
      have hok : grabMsg (encode m ++ x) = .ok (m, x) :=
        grabMsg?_eq_some.mp (grabMsg?_encode x hm)
      cases h.symm.trans hok
    · have hlt : recvq <+: encode m :=
        (List.prefix_or_prefix_of_prefix hpre (List.prefix_append ..)).resolve_right hle
      exact ⟨m, hm, hlt, fun he => hle (he ▸ List.prefix_refl _)⟩

theorem framesOf_singleton (q : QueuedRelayMessage) :
    framesOf [q] = encode (Manager.frameOf q) := List.append_nil _

theorem framesOf_append (qs qs' : List QueuedRelayMessage) :
    framesOf (qs ++ qs') = framesOf qs ++ framesOf qs' := by
  simp [framesOf]

/-- The bytes are the frames of items about connections of the relay at `p`. -/
structure ItemStream (p : Int) (stream : Bytes) (qs : List QueuedRelayMessage) : Prop where
  bytes : stream = framesOf qs
  items : ∀ q ∈ qs, ItemOk p q

namespace ItemStream
variable {p : Int} {recvq rest : Bytes} {qs : List QueuedRelayMessage}

theorem wellFormed {stream : Bytes} (h : ItemStream p stream qs) (hp : 0 ≤ p ∧ p < 65536) :
    ∀ m ∈ qs.map Manager.frameOf, WellFormed m := by
  intro m hm
  obtain ⟨q, hq, rfl⟩ := List.mem_map.mp hm
  exact (h.items q hq).wellFormed hp

/-- What is taken off the stream is the frame of its first item. -/
theorem takes {msg : PortPortMessage} {recvq' : Bytes} (h : ItemStream p (recvq ++ rest) qs)
    (hp : 0 ≤ p ∧ p < 65536) (hg : grabMsg recvq = .ok (msg, recvq')) :
    ∃ q qs', qs = q :: qs' ∧ msg = Manager.frameOf q ∧ ItemStream p (recvq' ++ rest) qs' := by
  obtain ⟨fs, hcons, hrest⟩ := grabMsg_stream (h.wellFormed hp) h.bytes hg
  obtain ⟨q, qs', rfl, rfl, rfl⟩ := List.map_eq_cons_iff.mp hcons
  exact ⟨q, qs', rfl, rfl, hrest, fun q' hq' => h.items q' (List.mem_cons_of_mem q hq')⟩

theorem refuses {e : PyError} (h : ItemStream p (recvq ++ rest) qs) (hp : 0 ≤ p ∧ p < 65536)
    (hg : grabMsg recvq = .error e) : Cut recvq :=
  cut_of_stream (h.wellFormed hp) h.bytes hg

theorem append {stream : Bytes} {qs' : List QueuedRelayMessage} (h : ItemStream p stream qs)
    (hqs : ∀ q ∈ qs', ItemOk p q) : ItemStream p (stream ++ framesOf qs') (qs ++ qs') where
  bytes := by rw [framesOf_append, h.bytes]
  items q hq := (List.mem_append.mp hq).elim (h.items q) (hqs q)

end ItemStream

/-! ## The management thread in a session -/

namespace Server
open Relay (BindResult)
variable {s s' : Server}

/-- What the thread holds: every frame it can take is about a connection of a registered relay, and
every item can be sent. -/
structure Peaceful (s : Server) : Prop where
  steady : s.mgr.phase.steady = true
  takes : grabMsg s.mgr.recvq = .ok (msg, recvq) →
    (msg.msgType = .data ∨ msg.msgType = .closeConnection) ∧
      ∃ rid, s.mgr.relays.lookup msg.relayPort = some rid
  refuses : grabMsg s.mgr.recvq = .error e → e.violation = false
  items : ∀ q ∈ s.mgr.inboundData, WellFormed (Manager.frameOf q)

/-- A turn of the receive loop ends it, or puts an item on the queue of a relay. -/
theorem Peaceful.recvTurn {results : List BindResult} (h : s.Peaceful)
    (hs : s.recvTurn results = some s') :
    (s' = s.breakRecv ∧ ∀ x, grabMsg s.mgr.recvq ≠ .ok x) ∨ ∃ msg recvq rid q,
      grabMsg s.mgr.recvq = .ok (msg, recvq) ∧
      s.mgr.relays.lookup msg.relayPort = some rid ∧ itemOf msg = some q ∧
      s' = ((s.withMgr { s.mgr with recvq }).setRelay rid
        ((s.relay rid).enqueueOutbound q)).goto .recvLoop := by
  unfold Server.recvTurn at hs
  split at hs
  · rename_i hnil
    cases hs
    refine .inl ⟨rfl, fun x hx => ?_⟩
    rw [hnil] at hx
    cases hx
  split at hs
  · rename_i msg recvq hg
    obtain ⟨ht, rid, hl⟩ := h.takes hg
    rcases ht with ht | ht
    · simp only [processMsg, ht, withMgr_mgr, hl] at hs
      cases hs
      exact .inr ⟨msg, recvq, rid, _, hg, hl, by rw [itemOf, ht], rfl⟩
    · simp only [processMsg, ht, withMgr_mgr, hl] at hs
      cases hs
      exact .inr ⟨msg, recvq, rid, _, hg, hl, by rw [itemOf, ht], rfl⟩
  · rename_i e he
    cases hs
    refine .inl ⟨recvExcept_breaks ?_, fun x => by simp [he]⟩
    rw [loops_eq_violation]
    exact h.refuses he

/-- What a step of the thread that is no callback of the management socket does in a session: it
sends the frames of the items `qs` that it takes, and leaves its loop only when asked to. -/
structure SessionStep (s : Server) (a : ManagerAction) (s' : Server)
    (qs : List QueuedRelayMessage) : Prop where
  sendLog : s'.mgr.sendLog = s.mgr.sendLog ++ qs.map Manager.frameOf
  sendq : s'.mgr.sendq = s.mgr.sendq ++ framesOf qs
  items : ∀ q ∈ qs, q ∈ s.mgr.inboundData
  closeThread : a ≠ .wakeupRead true → s'.mgr.closeThread = s.mgr.closeThread
  inLoop : s.mgr.phase.inLoop = true → s.closeService = false → s.mgr.closeThread = false →
    s'.mgr.phase.inLoop = true
  relay : s.mgr.phase.inLoop = true → ∀ i,
    (s'.relay i).atomicClose = (s.relay i).atomicClose ∧ (s'.relay i).phase = (s.relay i).phase

/-- The thread sends nothing and touches no relay. -/
theorem SessionStep.silent {a : ManagerAction} (hlog : s'.mgr.sendLog = s.mgr.sendLog)
    (hsendq : s'.mgr.sendq = s.mgr.sendq) (hrelay : s'.relay = s.relay)
    (hclose : a ≠ .wakeupRead true → s'.mgr.closeThread = s.mgr.closeThread)
    (hloop : s.mgr.phase.inLoop = true → s.closeService = false → s.mgr.closeThread = false →
      s'.mgr.phase.inLoop = true) : SessionStep s a s' [] where
  sendLog := by rw [hlog, List.map_nil, List.append_nil]
  sendq := by rw [hsendq]; exact (List.append_nil _).symm
  items := List.forall_mem_nil _
  closeThread := hclose
  inLoop := hloop
  relay _ i := by rw [hrelay]; exact ⟨rfl, rfl⟩

theorem Peaceful.recvTurn_step {results : List BindResult} (h : s.Peaceful)
    (hs : s.recvTurn results = some s') : SessionStep s (.recvTurn results) s' [] := by
  rcases h.recvTurn hs with ⟨rfl, -⟩ | ⟨msg, recvq, rid, q, -, -, -, rfl⟩
  · exact .silent rfl rfl rfl (fun _ => rfl) fun _ _ _ => rfl
  · refine ⟨(List.append_nil _).symm, (List.append_nil _).symm, List.forall_mem_nil _,
      fun _ => rfl, fun _ _ _ => rfl, fun _ i => ?_⟩
    by_cases hi : i = rid
    · subst hi
      simp [Relay.enqueueOutbound, Relay.wakeup]
    · simp [hi]

theorem Peaceful.drains {left : Nat} (h : s.Peaceful) :
    ∃ qs, SessionStep s .turn (s.withMgr (s.mgr.inboundTurn left)) qs := by
  have hdrains := s.mgr.inboundTurn_drains left
  generalize s.mgr.inboundTurn left = m at hdrains
  cases hdrains with
  | ends => exact ⟨[], .silent rfl rfl rfl (fun _ => rfl) fun _ _ _ => rfl⟩
  | @sends q items m hl hi hm =>
    have hq : q ∈ s.mgr.inboundData := hi ▸ List.mem_cons_self
    obtain ⟨m', hm', hsendq, -⟩ := Manager.send_wellFormed
      (m := { s.mgr with inboundData := items }) (h.items q hq)
    cases hm.symm.trans hm'
    obtain ⟨data, writeEnabled, mask, -, rfl⟩ := Manager.send_sent hm
    refine ⟨[q], rfl, ?_, fun q' hq' => List.mem_singleton.mp hq' ▸ hq, fun _ => rfl,
      fun _ _ _ => rfl, fun _ i => ⟨rfl, rfl⟩⟩
    rw [framesOf_singleton]
    exact hsendq
  | fails hi hm =>
    obtain ⟨m, hsent, -⟩ := Manager.send_wellFormed (h.items _ (hi ▸ List.mem_cons_self))
    cases hsent.symm.trans hm

theorem Peaceful.step {a : ManagerAction} (h : s.Peaceful) (hio : ∀ io, a ≠ .clientIo io)
    (hs : s.mgrStep a = some s') : ∃ qs, SessionStep s a s' qs := by
  have hsteady := h.steady
  cases mgrStep_moves hs with
  | leaves _ hc =>
    refine ⟨[], .silent rfl rfl rfl (fun _ => rfl) fun _ hservice hthread => ?_⟩
    simp [hservice, hthread] at hc
  | selects | dispatched =>
    exact ⟨[], .silent rfl rfl rfl (fun _ => rfl) fun _ _ _ => rfl⟩
  | clientIo => exact absurd rfl (hio _)
  | wakeupRead _ eof =>
    refine ⟨[], .silent rfl rfl rfl (fun ha => ?_) fun _ _ _ => rfl⟩
    cases eof with
    | false => exact Bool.or_false _
    | true => exact absurd rfl ha
  | emptied | takes | refuses => exact ⟨[], h.recvTurn_step (mgrStep_recvTurn hs).2.2⟩
  | announces hp | destroys hp =>
    rw [hp] at hsteady
    cases hsteady
  | drains => exact h.drains
  | @closes rid rids hp =>
    refine ⟨[], (List.append_nil _).symm, (List.append_nil _).symm, List.forall_mem_nil _,
      fun _ => rfl, fun hin => ?_, fun hin => ?_⟩
    · rw [hp] at hin
      cases hin
    · rw [hp] at hin
      cases hin
  | ends hp =>
    refine ⟨[], .silent rfl rfl rfl (fun _ => rfl) fun hin => ?_⟩
    rw [hp] at hin
    cases hin

end Server
/-! ## What is on the way -/

section
variable {A : State Peer UInt8 → Peer → Prop} {own : Prop} {p : Int} {s s' : System}
  {t : State Peer UInt8} {qs : List QueuedRelayMessage}

theorem UpStream.itemStream (h : UpStream p s t qs) :
    ItemStream p (s.server.mgr.recvq ++ (s.up ++ s.client.remote.sendq)) qs where
  bytes := (List.append_assoc ..).symm.trans h.bytes
  items q hq := (h.items q (by simp [System.upItems, hq])).1

/-- What the management thread takes is the frame of an item of the client. -/
theorem Models.serverTakes (hm : Models A own p s t) {msg : PortPortMessage} {recvq : Bytes}
    (hg : grabMsg s.server.mgr.recvq = .ok (msg, recvq)) : ∃ q, ItemOk p q ∧
      q.kind ≠ .newConnection ∧ msg = Manager.frameOf q ∧
        s.server.mgr.relays.lookup msg.relayPort = some 0 := by
  obtain ⟨fd, qs, hS, -, -, hU⟩ := hm.refines
  obtain ⟨q, qs, rfl, rfl, -⟩ := hU.itemStream.takes ⟨Int.le_of_lt hm.port.1, hm.port.2⟩ hg
  obtain ⟨hq, hkind⟩ := hU.items q (by simp [System.upItems])
  refine ⟨q, hq, hkind, rfl, ?_⟩
  rw [(frameOf_fields q).1, hq.relayPort, hS.relays]
  exact List.dlookup_cons_eq ..

theorem Models.serverRefuses (hm : Models A own p s t) {e : PyError}
    (hg : grabMsg s.server.mgr.recvq = .error e) : Cut s.server.mgr.recvq := by
  obtain ⟨fd, qs, -, -, -, hU⟩ := hm.refines
  exact hU.itemStream.refuses ⟨Int.le_of_lt hm.port.1, hm.port.2⟩ hg

theorem Models.itemOk (hm : Models A own p s t) :
    ∀ q ∈ s.server.mgr.inboundData, ItemOk p q := by
  obtain ⟨fd, qs, -, -, hD, -⟩ := hm.refines
  intro q hq
  exact hD.items q (by simp [System.downItems, hq])

theorem Models.peaceful (hm : Models A own p s t) : s.server.Peaceful where
  steady := hm.refines.choose_spec.choose_spec.1.steady
  takes hg := by
    obtain ⟨q, -, hkind, rfl, hl⟩ := hm.serverTakes hg
    refine ⟨?_, 0, hl⟩
    obtain ⟨kind, addr, port, data, relayPort⟩ := q
    cases kind with
    | newConnection => exact absurd rfl hkind
    | closeConnection => exact .inr rfl
    | message => exact .inl rfl
  refuses hg := by
    obtain ⟨e, he, hv⟩ := (hm.serverRefuses hg).grabMsg
    cases he.symm.trans hg
    exact hv
  items q hq := (hm.itemOk q hq).wellFormed ⟨Int.le_of_lt hm.port.1, hm.port.2⟩

theorem Models.port_eq (hm : Models A own p s t) : s.relay.identifyingPort = p :=
  hm.refines.choose_spec.choose_spec.1.port

namespace System

/-- A step of the thread that is no callback of the management socket. -/
theorem mgrStep_of_server {a : Server.ManagerAction} {server : Server}
    (hio : ∀ io, a ≠ .clientIo io) (h : s.server.mgrStep a = some server) :
    s.mgrStep a = some { s with server } := by
  unfold mgrStep
  rw [h]
  cases a with
  | clientIo io => exact absurd rfl (hio io)
  | _ => rfl

theorem remoteStep_of_client {a : Client.RemoteAction} {client : Client}
    (hio : ∀ io, a ≠ .relayIo io) (h : s.client.remoteStep a = some client) :
    s.remoteStep a = some { s with client } := by
  unfold remoteStep
  rw [h]
  cases a with
  | relayIo io => exact absurd rfl (hio io)
  | _ => rfl

theorem step_port {a : Action} (hn : 0 < s.server.nrelays) (h : step s a = some s') :
    s'.relay.identifyingPort = s.relay.identifyingPort := by
  cases a with
  | mgr a =>
    obtain ⟨_, _, _, _, hr⟩ := (Server.mgrStep_relaysKept (mgrStep_server h)).2 0 hn
    rw [relay, hr]
    rfl
  | relay a =>
    obtain ⟨r, puts, hr, rfl⟩ := relayStep_cases h
    simpa [relay] using (Relay.step_socket hr).port
  | remote a => rw [relay, remoteStep_server h]; rfl
  | proxy a =>
    obtain ⟨-, l, puts, -, rfl⟩ := proxyStep_cases h
    rfl
  | serverShutdown | clientShutdown =>
    cases h
    rfl

/-- Every frame that the server has sent, or that is on its way to the client, is the frame of an
item. -/
structure Tidy (s : System) : Prop where
  down : ∃ qs, ItemStream s.relay.identifyingPort
    (s.client.remote.recvq ++ (s.down ++ s.server.mgr.sendq)) qs
  sent : ∀ f ∈ s.server.mgr.sendLog, ∃ q,
    ItemOk s.relay.identifyingPort q ∧ f = Manager.frameOf q

theorem Tidy.of_eq (h : s.Tidy) (hp : s'.relay.identifyingPort = s.relay.identifyingPort)
    (hb : s'.client.remote.recvq ++ (s'.down ++ s'.server.mgr.sendq) =
      s.client.remote.recvq ++ (s.down ++ s.server.mgr.sendq))
    (hl : s'.server.mgr.sendLog = s.server.mgr.sendLog) : s'.Tidy := by
  refine ⟨?_, ?_⟩
  · rw [hp, hb]
    exact h.down
  · rw [hp, hl]
    exact h.sent

theorem Tidy.mgrStep {a : Server.ManagerAction} (h : s.Tidy) (hm : Models A own p s t)
    (hp : s'.relay.identifyingPort = s.relay.identifyingPort) (hs : s.mgrStep a = some s') :
    s'.Tidy := by
  obtain ⟨srv, hsrv, ⟨io, rfl, -, rfl⟩ | ⟨hio, rfl⟩⟩ := mgrStep_cases hs
  · cases Server.mgrStep_moves hsrv with
    | @clientIo mask events _ _ =>
      have hmoved := s.server.mgr.handleRelayClient_moved mask io
      refine h.of_eq hp ?_ hmoved.sendLog
      simp only [Server.withMgr, List.append_assoc, sentBy_append hmoved.sendq]
  · obtain ⟨qs, hstep⟩ := hm.peaceful.step hio hsrv
    have hqs (q) (hq : q ∈ qs) : ItemOk s.relay.identifyingPort q :=
      hm.port_eq ▸ hm.itemOk q (hstep.items q hq)
    refine ⟨?_, ?_⟩
    · obtain ⟨ds, hds⟩ := h.down
      have happ := hds.append hqs
      rw [List.append_assoc, List.append_assoc, ← hstep.sendq] at happ
      rw [hp]
      exact ⟨_, happ⟩
    · rw [hp, hstep.sendLog]
      intro f hf
      rcases List.mem_append.mp hf with hf | hf
      · exact h.sent f hf
      · obtain ⟨q, hq, rfl⟩ := List.mem_map.mp hf
        exact ⟨q, hqs q hq, rfl⟩

theorem Tidy.remoteStep {a : Client.RemoteAction} (h : s.Tidy) (hm : Models A own p s t)
    (hs : s.remoteStep a = some s') : s'.Tidy := by
  obtain ⟨c, hc, ⟨io, rfl, hdown, rfl⟩ | ⟨hio, rfl⟩⟩ := remoteStep_cases hs
  · cases Client.remoteStep_moves hc with
    | @relayIo mask _ events _ _ =>
      have hmoved := s.client.remote.handleRelay_moved mask io
      have hr := append_receivedBy hmoved.recvq
      generalize receivedBy s.client.remote.recvq _ = received at hdown hr ⊢
      obtain ⟨rest, hrest⟩ := hdown
      refine h.of_eq rfl ?_ rfl
      simp only [← hr, ← hrest, List.drop_left, List.append_assoc]
  · cases Client.remoteStep_moves hc with
    | relayIo => exact absurd rfl (hio _)
    | @takes msg recvq hp hg =>
      obtain ⟨ds, hds⟩ := h.down
      have hport := hm.port
      rw [← hm.port_eq] at hport
      obtain ⟨q, qs, -, -, hrest⟩ := hds.takes ⟨Int.le_of_lt hport.1, hport.2⟩ hg
      refine ⟨⟨qs, ?_⟩, h.sent⟩
      rw [Client.processMsg_remote]
      exact hrest
    | batch =>
      refine h.of_eq rfl ?_ rfl
      simp only [RemoteProxy.batchTurn_recvq]
    | _ => exact h.of_eq rfl rfl rfl

theorem Reachable.tidy {P : System → Action → Prop} (h : Reachable P s) : s.Tidy := by
  refine Transition.Reach.invariant_of (K := fun s => ∃ p t, Models (fun _ _ => True) False p s t)
    (J := fun s => s.Tidy) (fun s hs => Reachable.models_any hs) ?_ ?_ h
  · rintro _ ⟨port, -, -, rfl⟩
    exact ⟨⟨[], rfl, List.forall_mem_nil _⟩, List.forall_mem_nil _⟩
  · rintro s a s' ⟨p, t, hm⟩ hI - hs
    have hn : 0 < s.server.nrelays := by
      rw [hm.refines.choose_spec.choose_spec.1.nrelays]
      exact Nat.one_pos
    have hp := step_port hn hs
    cases a with
    | mgr a => exact hI.mgrStep hm hp hs
    | relay a =>
      obtain ⟨r, puts, -, rfl⟩ := relayStep_cases hs
      exact hI.of_eq hp rfl rfl
    | remote a => exact hI.remoteStep hm hs
    | proxy a =>
      obtain ⟨-, l, puts, -, rfl⟩ := proxyStep_cases hs
      exact hI.of_eq hp rfl rfl
    | serverShutdown | clientShutdown =>
      cases hs
      exact hI.of_eq hp rfl rfl

/-- **Both ends speak the same language**: in every run the server sends nothing but frames of items
about connections of its relay, with a payload that fits one `recv` where they carry any; either end
takes only such frames off its buffer, the server only those of data and of closes, for which it
finds the relay; and what either end refuses is a frame cut short. -/
theorem frames_understood {P : System → Action → Prop} (h : Reachable P s) :
    let Item q := ItemOk s.relay.identifyingPort q
    (∀ f ∈ s.server.mgr.sendLog, ∃ q, Item q ∧ f = Manager.frameOf q) ∧
    (∀ msg recvq, grabMsg s.client.remote.recvq = .ok (msg, recvq) →
      ∃ q, Item q ∧ msg = Manager.frameOf q) ∧
    (∀ msg recvq, grabMsg s.server.mgr.recvq = .ok (msg, recvq) →
      ∃ q, Item q ∧ q.kind ≠ .newConnection ∧ msg = Manager.frameOf q ∧
        s.server.mgr.relays.lookup msg.relayPort = some 0) ∧
    (∀ e, grabMsg s.client.remote.recvq = .error e → Cut s.client.remote.recvq) ∧
    ∀ e, grabMsg s.server.mgr.recvq = .error e → Cut s.server.mgr.recvq := by
  obtain ⟨p, t, hm⟩ := h.models_any
  obtain ⟨⟨ds, hds⟩, hsent⟩ := Reachable.tidy h
  have hport := hm.port
  rw [← hm.port_eq] at hport
  refine ⟨hsent, fun msg recvq hg => ?_, fun msg recvq hg => ?_, fun e hg => ?_,
    fun e hg => hm.serverRefuses hg⟩
  · obtain ⟨q, qs, rfl, rfl, -⟩ := hds.takes ⟨Int.le_of_lt hport.1, hport.2⟩ hg
    exact ⟨q, hds.items q List.mem_cons_self, rfl⟩
  · rw [hm.port_eq]
    exact hm.serverTakes hg
  · exact hds.refuses ⟨Int.le_of_lt hport.1, hport.2⟩ hg

/-- The client has received the beginning of the first of two frames. -/
def Run.firstBytes : List Action :=
  Run.listen ++ Run.accept Run.peer ++ Run.relayReads 0 [1, 2] ++ Run.mgrSends 2 30 ++
    Run.remoteReceives [64, 3, 1] 0

theorem frames_understood_firstBytes : ∃ s, run anyStep Run.firstBytes = some s ∧
    s.server.mgr.sendLog.map (·.msgType) = [.newConnection, .data] ∧
    s.client.remote.recvq = [64, 3, 1] ∧ Cut s.client.remote.recvq ∧
    ∀ f ∈ s.server.mgr.sendLog, ∃ q,
      ItemOk s.relay.identifyingPort q ∧ f = Manager.frameOf q := by
  have hx : (run anyStep Run.firstBytes).map (fun s =>
      (s.server.mgr.sendLog.map (·.msgType), s.client.remote.recvq)) =
        some ([.newConnection, .data], [64, 3, 1]) := by
    decide +kernel
  obtain ⟨s, hs, hseen⟩ := Option.map_eq_some_iff.mp hx
  obtain ⟨hlog, hrecvq⟩ := Prod.mk.inj hseen
  have hr := Reachable.of_run (P := fun _ _ => True) (fun _ _ _ => trivial) hs
  obtain ⟨hsent, -, -, hcut, -⟩ := frames_understood hr
  exact ⟨s, hs, hlog, hrecvq, hcut .indexError (by rw [hrecvq]; decide), hsent⟩

end System
end
end PortPort
