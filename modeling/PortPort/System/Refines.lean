import PortPort.System.ProxySide
import PortPort.System.RelaySide
import PortPort.System.Streams

/-! # The composed system refines the tunnel

A message of the tunnel on its way to a host is, in the system, an item of one of the queues or a
frame of the byte stream. The relay and the local proxy are the two hosts; the threads in between
only move messages on. -/

namespace PortPort
open Tunnel (State Step Cond Msg)
open Transition (Steps)

/-! ## Messages on their way -/

/-- The items with these numbers are the messages `l`. -/
structure Carries (tags : List Nat) (items : List QueuedRelayMessage)
    (l : List (Nat × Msg Peer UInt8)) : Prop where
  length : tags.length = items.length
  eq : l = (tags.zip items).map tagged

namespace Carries
variable {tags : List Nat} {items : List QueuedRelayMessage} {l : List (Nat × Msg Peer UInt8)}

theorem append (h : Carries tags items l) (puts : List (Nat × QueuedRelayMessage)) :
    Carries (tags ++ puts.map Prod.fst) (items ++ puts.map Prod.snd) (l ++ puts.map tagged) where
  length := by simp [h.length]
  eq := by
    rw [List.zip_append h.length, List.map_append, ← h.eq]
    simp [List.zip_map']

theorem cons {m : QueuedRelayMessage} (h : Carries tags (m :: items) l) :
    ∃ n tags' l', tags = n :: tags' ∧ l = tagged (n, m) :: l' ∧ Carries tags' items l' := by
  obtain ⟨hlen, rfl⟩ := h
  cases tags with
  | nil => simp at hlen
  | cons n tags => exact ⟨n, tags, _, rfl, rfl, by simpa using hlen, rfl⟩

/-- The oldest message has been taken. -/
theorem tail {m : QueuedRelayMessage} {x : Nat}
    (h : Carries tags (m :: items) (tagged (x, m) :: l)) : Carries (tags.drop 1) items l := by
  obtain ⟨n, tags', l', rfl, hl, h'⟩ := h.cons
  cases hl
  exact h'

theorem exists_item {n : Nat} {msg : Msg Peer UInt8} (h : Carries tags items l)
    (hm : (n, msg) ∈ l) : ∃ q ∈ items, msgOf q = msg := by
  rw [h.eq] at hm
  obtain ⟨⟨x, q⟩, hx, he⟩ := List.mem_map.mp hm
  exact ⟨q, (List.of_mem_zip hx).2, congrArg Prod.snd he⟩

theorem length_eq (h : Carries tags items l) : l.length = items.length := by
  rw [h.eq, List.length_map, List.length_zip, h.length, Nat.min_self]

end Carries

/-- The items on their way to the local proxy, given the frames on the stream. -/
def System.downItems (s : System) (fd : List PortPortMessage) : List QueuedRelayMessage :=
  s.proxy.pending ++ fd.filterMap itemOf ++ s.server.mgr.inboundData

structure DownStream (p : Int) (s : System) (t : State Peer UInt8) (fd : List PortPortMessage) :
    Prop where
  frames : ∀ m ∈ fd, WellFormed m
  bytes : s.client.remote.recvq ++ s.down ++ s.server.mgr.sendq = fd.flatMap encode
  items : ∀ q ∈ s.downItems fd, ItemOk p q
  carries : Carries s.downTags (s.downItems fd) t.down

/-- The items on their way to the relay, given those that are frames on the stream. -/
def System.upItems (s : System) (qs : List QueuedRelayMessage) : List QueuedRelayMessage :=
  s.relay.outbound ++ qs ++ s.client.remote.toRemoteProxy

/-- The thread sends nothing any more once the close event is set. -/
def RemotePhase.stopped : RemotePhase → Bool
  | .dispatch _ | .recvLoop => false
  | _ => true

/-- The frames of items. -/
def framesOf (qs : List QueuedRelayMessage) : Bytes := (qs.map Manager.frameOf).flatMap encode

/-- What the local proxy put on its queue behind its loop has not left the client. -/
def Held (s : System) (t : State Peer UInt8) (qs : List QueuedRelayMessage) : Prop :=
  t.late.length ≤ s.client.remote.toRemoteProxy.length ∨
  ∃ ql, ql <:+ qs ∧ t.late.length = ql.length + s.client.remote.toRemoteProxy.length ∧
    framesOf ql <:+ s.client.remote.sendq ∧ s.client.remote.phase.stopped = true

structure UpStream (p : Int) (s : System) (t : State Peer UInt8) (qs : List QueuedRelayMessage) :
    Prop where
  bytes : s.server.mgr.recvq ++ s.up ++ s.client.remote.sendq = framesOf qs
  items : ∀ q ∈ s.upItems qs, ItemOk p q ∧ q.kind ≠ .newConnection
  carries : Carries s.upTags (s.upItems qs) (t.up ++ t.late)
  late : t.late ≠ [] →
    s.client.close = true ∧ (s.proxy.phase = .closing ∨ s.proxy.phase = .done)
  held : Held s t qs

/-- The management thread is in none of the phases that make or destroy a relay. -/
def ManagerPhase.steady : ManagerPhase → Bool
  | .creating _ | .joining .. => false
  | _ => true

structure ServerSide (own : Prop) (p : Int) (s : Server) (t : State Peer UInt8) : Prop where
  nrelays : s.nrelays = 1
  relays : s.mgr.relays = AList.singleton p 0
  steady : s.mgr.phase.steady = true
  inv : (s.relay 0).Inv own
  port : (s.relay 0).identifyingPort = p
  near : Near (s.relay 0) t

structure ClientSide (p : Int) (c : Client) (t : State Peer UInt8) : Prop where
  ok : ProxyOk c.proxy
  port : c.proxy.remotePort = p
  closing : c.proxy.phase = .closing → c.close = true
  far : Far c.proxy t

/-- The system is in the state `t` of the tunnel. -/
def Refines (own : Prop) (p : Int) (s : System) (t : State Peer UInt8) : Prop :=
  ∃ fd qs, ServerSide own p s.server t ∧ ClientSide p s.client t ∧ DownStream p s t fd ∧
    UpStream p s t qs

section
variable {A : State Peer UInt8 → Peer → Prop} {own : Prop} {p : Int} {s s' : System}
  {t t' : State Peer UInt8} {fd : List PortPortMessage} {qs : List QueuedRelayMessage}

theorem ServerSide.withMgr {srv : Server} (h : ServerSide own p srv t) {m : Manager}
    (hr : m.relays = srv.mgr.relays) (hs : m.phase.steady = true) :
    ServerSide own p (srv.withMgr m) t :=
  ⟨h.nrelays, hr.trans h.relays, hs, h.inv, h.port, h.near⟩

theorem DownStream.of_eq (h : DownStream p s t fd)
    (hb : s'.client.remote.recvq ++ s'.down ++ s'.server.mgr.sendq =
      s.client.remote.recvq ++ s.down ++ s.server.mgr.sendq)
    (hi : s'.downItems fd = s.downItems fd) (ht : s'.downTags = s.downTags)
    (hd : t'.down = t.down) : DownStream p s' t' fd :=
  ⟨h.frames, hb.trans h.bytes, hi ▸ h.items, by rw [ht, hi, hd]; exact h.carries⟩

/-- One more frame is on the stream. -/
theorem DownStream.push {f : PortPortMessage} (h : DownStream p s t fd) (hf : WellFormed f)
    (hb : s'.client.remote.recvq ++ s'.down ++ s'.server.mgr.sendq =
      s.client.remote.recvq ++ s.down ++ s.server.mgr.sendq ++ encode f)
    (hi : s'.downItems (fd ++ [f]) = s.downItems fd) (ht : s'.downTags = s.downTags) :
    DownStream p s' t (fd ++ [f]) where
  frames := by
    intro m hm
    rcases List.mem_append.mp hm with hm | hm
    · exact h.frames m hm
    · exact List.mem_singleton.mp hm ▸ hf
  bytes := by rw [hb, h.bytes]; simp
  items := hi ▸ h.items
  carries := by rw [ht, hi]; exact h.carries

/-- The oldest frame has been taken off the stream. -/
theorem DownStream.pop {f : PortPortMessage} (h : DownStream p s t (f :: fd))
    (hb : s'.client.remote.recvq ++ s'.down ++ s'.server.mgr.sendq = fd.flatMap encode)
    (hi : s'.downItems fd = s.downItems (f :: fd)) (ht : s'.downTags = s.downTags) :
    DownStream p s' t fd :=
  ⟨fun m hm => h.frames m (List.mem_cons_of_mem f hm), hb, hi ▸ h.items,
    by rw [ht, hi]; exact h.carries⟩

theorem UpStream.of_eq (h : UpStream p s t qs)
    (hb : s'.server.mgr.recvq ++ s'.up ++ s'.client.remote.sendq =
      s.server.mgr.recvq ++ s.up ++ s.client.remote.sendq)
    (hi : s'.upItems qs = s.upItems qs) (ht : s'.upTags = s.upTags)
    (hclose : s.client.close = true → s'.client.close = true)
    (hp : s'.proxy.phase = s.proxy.phase) (hh : Held s' t qs) : UpStream p s' t qs :=
  ⟨hb.trans h.bytes, hi ▸ h.items, by rw [ht, hi]; exact h.carries,
    fun hl => ⟨hclose (h.late hl).1, hp ▸ (h.late hl).2⟩, hh⟩

/-! ## The management thread -/

/-- A server that differs in nothing the streams depend on. -/
theorem Refines.server {srv : Server} (hR : Refines own p s t)
    (hS : ServerSide own p srv t) (hsend : srv.mgr.sendq = s.server.mgr.sendq)
    (hrecv : srv.mgr.recvq = s.server.mgr.recvq)
    (hin : srv.mgr.inboundData = s.server.mgr.inboundData)
    (hout : (srv.relay 0).outbound = s.relay.outbound) :
    Refines own p { s with server := srv } t := by
  obtain ⟨fd, qs, -, hC, hD, hU⟩ := hR
  refine ⟨fd, qs, hS, hC, hD.of_eq (by rw [hsend]) ?_ rfl rfl,
    hU.of_eq (by rw [hrecv]) ?_ rfl id rfl hU.held⟩
  · simp only [System.downItems, System.proxy, hin]
  · simp only [System.upItems, System.relay, hout]

/-- The thread stands elsewhere. -/
theorem Refines.withMgr {m : Manager} (hR : Refines own p s t)
    (hr : m.relays = s.server.mgr.relays) (hs : m.phase.steady = true)
    (hsend : m.sendq = s.server.mgr.sendq) (hrecv : m.recvq = s.server.mgr.recvq)
    (hin : m.inboundData = s.server.mgr.inboundData) :
    Refines own p { s with server := s.server.withMgr m } t :=
  hR.server (hR.choose_spec.choose_spec.1.withMgr hr hs) hsend hrecv hin rfl

theorem Refines.clientIo {m : Manager} {received : Bytes} (hR : Refines own p s t)
    (hm : Manager.Moved s.server.mgr m) {phase : ManagerPhase} (hs : phase.steady = true)
    (hrecv : received = System.receivedBy s.server.mgr.recvq m.recvq) (hup : received <+: s.up) :
    Refines own p { s with
      server := s.server.withMgr { m with phase }
      down := s.down ++ System.sentBy s.server.mgr.sendq m.sendq
      up := s.up.drop received.length } t := by
  obtain ⟨fd, qs, hS, hC, hD, hU⟩ := hR
  refine ⟨fd, qs, hS.withMgr hm.relays hs, hC, hD.of_eq ?_ ?_ rfl rfl,
    hU.of_eq ?_ rfl rfl id rfl hU.held⟩
  · simp only [Server.withMgr, List.append_assoc, sentBy_append hm.sendq]
  · simp only [System.downItems, System.proxy, Server.withMgr, hm.inboundData]
  · obtain ⟨rest, hrest⟩ := hup
    have hr := append_receivedBy hm.recvq
    rw [← hrecv] at hr
    simp only [Server.withMgr, ← hr, ← hrest, List.drop_left, List.append_assoc]

theorem Refines.recvExcept (hR : Refines own p s t) (e : PyError) :
    Refines own p { s with server := s.server.recvExcept e } t := by
  rcases s.server.recvExcept_cases e with ⟨err, m, hm, he⟩ | ⟨he, -⟩
  · obtain ⟨m', hm', hsend, hrecv, hrel, hin, -⟩ := Manager.send_wellFormed (m := s.server.mgr)
      (Server.wellFormed_error err)
    cases hm.symm.trans hm'
    obtain ⟨fd, qs, hS, hC, hD, hU⟩ := hR
    rw [he]
    refine ⟨fd ++ [{ msgType := .error, error := err }], qs, hS.withMgr hrel rfl, hC,
      hD.push (Server.wellFormed_error err) ?_ ?_ rfl, hU.of_eq ?_ rfl rfl id rfl hU.held⟩
    · simp only [Server.withMgr, hsend, List.append_assoc]
    · simp [System.downItems, System.proxy, Server.withMgr, hin, itemOf]
    · simp only [Server.withMgr, hrecv]
  · rw [he]
    exact hR.withMgr rfl rfl rfl rfl rfl

/-- The management thread takes a frame off the stream and puts its item on the queue of the
relay. -/
theorem Refines.processMsg {msg : PortPortMessage} {recvq : Bytes} {results : List Relay.BindResult}
    {srv : Server} (hp : 0 ≤ p ∧ p < 65536) (hR : Refines own p s t)
    (hg : grabMsg s.server.mgr.recvq = .ok (msg, recvq))
    (h : (s.server.withMgr { s.server.mgr with recvq }).processMsg msg results = some srv) :
    Refines own p { s with server := srv } t := by
  obtain ⟨fd, qs, hS, hC, hD, hU⟩ := hR
  have hitem q (hq : q ∈ qs) : ItemOk p q ∧ q.kind ≠ .newConnection :=
    hU.items q (by simp [System.upItems, hq])
  have hfs : ∀ m ∈ qs.map Manager.frameOf, WellFormed m := by
    intro m hm
    obtain ⟨q, hq, rfl⟩ := List.mem_map.mp hm
    exact (hitem q hq).1.wellFormed hp
  obtain ⟨fs, hcons, hrest⟩ := grabMsg_stream hfs
    (by rw [← List.append_assoc]; exact hU.bytes) hg
  obtain ⟨q, qs, rfl, rfl, rfl⟩ := List.map_eq_cons_iff.mp hcons
  obtain ⟨hq, hkind⟩ := hitem q List.mem_cons_self
  have hlookup : s.server.mgr.relays.lookup q.relayPort = some 0 := by
    rw [hS.relays, hq.relayPort]
    exact List.dlookup_cons_eq ..
  have hsrv : srv = ((s.server.withMgr { s.server.mgr with recvq }).setRelay 0
      (s.relay.enqueueOutbound q)).goto .recvLoop := by
    have hno := hq.noData
    obtain ⟨kind, addr, port, data, relayPort⟩ := q
    cases kind with
    | newConnection => exact absurd rfl hkind
    | closeConnection =>
      obtain rfl := hno (by simp)
      simp only [Server.processMsg, Manager.frameOf, Server.withMgr, hlookup] at h
      exact (Option.some.inj h).symm
    | message =>
      simp only [Server.processMsg, Manager.frameOf, Server.withMgr, hlookup] at h
      exact (Option.some.inj h).symm
  subst hsrv
  have hr0 : (((s.server.withMgr { s.server.mgr with recvq }).setRelay 0
      (s.relay.enqueueOutbound q)).goto .recvLoop).relay 0 = s.relay.enqueueOutbound q := by
    simp
  have hout : ({ s with server := ((s.server.withMgr { s.server.mgr with recvq }).setRelay 0
      (s.relay.enqueueOutbound q)).goto .recvLoop } : System).upItems qs = s.upItems (q :: qs) := by
    simp [System.upItems, System.relay, Relay.enqueueOutbound, Relay.wakeup]
  refine ⟨fd, qs, ⟨hS.nrelays, hS.relays, rfl, ?_, ?_, ?_⟩, hC, hD.of_eq rfl rfl rfl rfl,
    ⟨?_, hout ▸ hU.items, ?_, hU.late, ?_⟩⟩
  · rw [hr0]
    exact { hS.inv with }
  · rw [hr0]
    exact hS.port
  · rw [hr0]
    exact { hS.near with }
  · rw [← List.append_assoc] at hrest
    exact hrest
  · rw [hout]
    exact hU.carries
  · rcases hU.held with hl | ⟨ql, hql, hlen, hsuf, hstop⟩
    · exact .inl hl
    · refine .inr ⟨ql, ?_, hlen, hsuf, hstop⟩
      -- the frame just taken has left the client, so it is none of those held there
      rcases List.suffix_cons_iff.mp hql with rfl | hql
      · have hlen := congrArg List.length hU.bytes
        have := hsuf.length_le
        simp only [List.length_append] at hlen
        have hnil : s.server.mgr.recvq = [] := List.length_eq_zero_iff.mp (by omega)
        rw [hnil] at hg
        cases hg
      · exact hql

theorem Refines.recvTurn {results : List Relay.BindResult} {srv : Server}
    (hp : 0 ≤ p ∧ p < 65536) (hR : Refines own p s t)
    (h : s.server.recvTurn results = some srv) : Refines own p { s with server := srv } t := by
  unfold Server.recvTurn at h
  split at h
  · cases h
    exact hR.withMgr rfl rfl rfl rfl rfl
  split at h
  · exact hR.processMsg hp ‹_› h
  · cases h
    exact hR.recvExcept _

theorem Refines.inboundTurn (hp : 0 ≤ p ∧ p < 65536) (hR : Refines own p s t) (left : Nat) :
    Refines own p { s with server := s.server.withMgr (s.server.mgr.inboundTurn left) } t := by
  unfold Manager.inboundTurn
  split
  · exact hR.withMgr rfl rfl rfl rfl rfl
  split
  · exact hR.withMgr rfl rfl rfl rfl rfl
  · rename_i q inboundData hin
    obtain ⟨fd, qs, hS, hC, hD, hU⟩ := hR
    have hq : ItemOk p q := hD.items q (by simp [System.downItems, hin])
    have hwf := hq.wellFormed hp
    obtain ⟨m, hm, hsend, hrecv, hrel, hin', -⟩ := Manager.send_wellFormed
      (m := { s.server.mgr with inboundData }) hwf
    rw [hm]
    refine ⟨fd ++ [Manager.frameOf q], qs, hS.withMgr hrel rfl, hC,
      hD.push hwf ?_ ?_ rfl, hU.of_eq ?_ rfl rfl id rfl hU.held⟩
    · simp only [Server.withMgr, hsend, List.append_assoc]
    · simp [System.downItems, System.proxy, Server.withMgr, hin, hin', hq.itemOf_frameOf]
    · simp only [Server.withMgr, hrecv]

/-- The final clean-up of the management thread asks a relay to close. -/
theorem Refines.closeRelay (hR : Refines own p s t) (rid : Nat) (phase : ManagerPhase)
    (hs : phase.steady = true) :
    Refines own p { s with server := (s.server.setRelay rid
      { s.server.relay rid with atomicClose := true }.wakeup).goto phase } t := by
  have hr : ((s.server.setRelay rid
      { s.server.relay rid with atomicClose := true }.wakeup).goto phase).relay 0 = s.relay ∨
      ((s.server.setRelay rid
      { s.server.relay rid with atomicClose := true }.wakeup).goto phase).relay 0 =
        { s.relay with atomicClose := true }.wakeup := by
    by_cases h0 : 0 = rid
    · subst h0
      exact .inr (by simp [System.relay])
    · exact .inl (by simp [System.relay, h0])
  have hS := hR.choose_spec.choose_spec.1
  refine hR.server ⟨hS.nrelays, hS.relays, hs, ?_, ?_, ?_⟩ rfl rfl rfl ?_
  · rcases hr with hr | hr <;> rw [hr]
    · exact hS.inv
    · exact { hS.inv with }
  · rcases hr with hr | hr <;> rw [hr] <;> exact hS.port
  · rcases hr with hr | hr <;> rw [hr]
    · exact hS.near
    · exact { hS.near with }
  · rcases hr with hr | hr <;> rw [hr]
    rfl

theorem mgr_refines {a : Server.ManagerAction} (hp : 0 ≤ p ∧ p < 65536) (hR : Refines own p s t)
    (h : s.mgrStep a = some s') : Refines own p s' t := by
  have hsteady := hR.choose_spec.choose_spec.1.steady
  obtain ⟨srv, hsrv, ⟨io, rfl, hup, rfl⟩ | ⟨hio, rfl⟩⟩ := System.mgrStep_cases h
  · cases Server.mgrStep_moves hsrv with
    | @clientIo mask _ events hphase =>
      refine hR.clientIo (s.server.mgr.handleRelayClient_moved mask io) ?_ rfl hup
      split <;> rfl
  cases Server.mgrStep_moves hsrv with
  | leaves | selects | wakeupRead | dispatched | ends => exact hR.withMgr rfl rfl rfl rfl rfl
  | clientIo => exact absurd rfl (hio _)
  | emptied | takes | refuses => exact hR.recvTurn hp (Server.mgrStep_recvTurn hsrv).2.2
  | announces hphase | destroys hphase =>
    rw [hphase] at hsteady
    cases hsteady
  | drains => exact hR.inboundTurn hp _
  | closes => exact hR.closeRelay _ _ rfl

/-! ## The relay thread -/

theorem UpStream.late_le (h : UpStream p s t qs) :
    t.late.length ≤ qs.length + s.client.remote.toRemoteProxy.length := by
  rcases h.held with hl | ⟨ql, hql, hlen, -, -⟩
  · omega
  · have := hql.length_le
    omega

/-- The oldest message on the way to the relay is the one the relay takes next. -/
theorem UpStream.head (h : UpStream p s t qs) {m : QueuedRelayMessage}
    {rest : List QueuedRelayMessage} (ho : s.relay.outbound = m :: rest) :
    m.kind ≠ .newConnection ∧
      ∃ x up, s.upTags.head? = some x ∧ t.up = tagged (x, m) :: up := by
  have hitems : s.upItems qs = m :: (rest ++ qs ++ s.client.remote.toRemoteProxy) := by
    simp [System.upItems, ho]
  have hc := h.carries
  have hlen := hc.length_eq
  rw [hitems] at hc hlen
  refine ⟨(h.items m (by simp [hitems])).2, ?_⟩
  obtain ⟨n, tags, l, htags, hl, -⟩ := hc.cons
  have hlate := h.late_le
  simp only [List.length_append, List.length_cons] at hlen
  cases hup : t.up with
  | nil =>
    rw [hup] at hlen
    simp only [List.length_nil] at hlen
    omega
  | cons y up =>
    rw [hup, List.cons_append, List.cons.injEq] at hl
    exact ⟨n, up, by rw [htags]; rfl, by rw [hl.1]⟩

theorem FarSame.clientSide {c : Client} (hf : FarSame t t') (hC : ClientSide p c t)
    (hk : ∀ n < t.announced, t'.key n = t.key n) : ClientSide p c t' :=
  ⟨hC.ok, hC.port, hC.closing, {
    key := fun hn =>
      have h := hC.far.key hn
      ⟨hf.announced ▸ h.1, (hk _ h.1).trans h.2⟩
    ends := hf.far.trans hC.far.ends
    farOpen := fun n => hf.farOpen ▸ hC.far.farOpen n
    refused := fun n => hf.refused ▸ hC.far.refused n
    farTab := fun k => hf.farTab ▸ hC.far.farTab k
    deaf := hf.deaf ▸ hC.far.deaf }⟩

/-- The relay thread has put messages on its queue. -/
theorem DownStream.enqueue {puts : List (Nat × QueuedRelayMessage)} (h : DownStream p s t fd)
    (hb : s'.client.remote.recvq ++ s'.down ++ s'.server.mgr.sendq =
      s.client.remote.recvq ++ s.down ++ s.server.mgr.sendq)
    (hl : s'.proxy.pending = s.proxy.pending)
    (hi : s'.server.mgr.inboundData = s.server.mgr.inboundData ++ puts.map Prod.snd)
    (ht : s'.downTags = s.downTags ++ puts.map Prod.fst) (hd : t'.down = t.down ++ puts.map tagged)
    (hputs : ∀ x ∈ puts, ItemOk p x.2) : DownStream p s' t' fd := by
  have hitems : s'.downItems fd = s.downItems fd ++ puts.map Prod.snd := by
    simp only [System.downItems, hl, hi, List.append_assoc]
  refine ⟨h.frames, hb.trans h.bytes, fun q hq => ?_, ?_⟩
  · rw [hitems] at hq
    rcases List.mem_append.mp hq with hq | hq
    · exact h.items q hq
    · obtain ⟨x, hx, rfl⟩ := List.mem_map.mp hq
      exact hputs x hx
  · rw [hitems, ht, hd]
    exact h.carries.append puts

/-- The relay thread may have taken the oldest message. -/
theorem UpStream.dequeue (h : UpStream p s t qs)
    (hb : s'.server.mgr.recvq ++ s'.up ++ s'.client.remote.sendq =
      s.server.mgr.recvq ++ s.up ++ s.client.remote.sendq)
    (hq : s'.relay.outbound = s.relay.outbound ∧ t'.up = t.up ∨
      ∃ m x, s.relay.outbound = m :: s'.relay.outbound ∧ t.up = tagged (x, m) :: t'.up)
    (hc : s'.client = s.client)
    (ht : s'.upTags = s.upTags.drop (s.relay.outbound.length - s'.relay.outbound.length))
    (hl : t'.late = t.late) : UpStream p s' t' qs := by
  have hitems : s'.upItems qs =
      s'.relay.outbound ++ (qs ++ s.client.remote.toRemoteProxy) := by
    simp only [System.upItems, hc, List.append_assoc]
  have hlate : t'.late ≠ [] → s'.client.close = true ∧
      (s'.proxy.phase = .closing ∨ s'.proxy.phase = .done) := by
    rw [hl, System.proxy, hc]
    exact h.late
  have hheld : Held s' t' qs := by
    unfold Held
    rw [hl, hc]
    exact h.held
  refine ⟨hb.trans h.bytes, fun q hin => h.items q ?_, ?_, hlate, hheld⟩
  · rw [hitems] at hin
    rcases hq with ⟨ho, -⟩ | ⟨m, x, ho, -⟩
    · simpa [System.upItems, ho] using hin
    · rw [System.upItems, ho, List.append_assoc]
      exact List.mem_cons_of_mem m hin
  · have hcar := h.carries
    rw [hitems, ht, hl]
    rcases hq with ⟨ho, hup⟩ | ⟨m, x, ho, hup⟩
    · rw [ho, hup, Nat.sub_self, List.drop_zero, ← List.append_assoc]
      exact hcar
    · rw [System.upItems, ho, hup, List.append_assoc] at hcar
      rw [ho, List.length_cons, Nat.add_sub_cancel_left]
      exact hcar.tail

theorem relay_refines {a : Relay.RelayAction} (hnum : Tunnel.Numbered t) (hR : Refines own p s t)
    (hA : ∀ addr, a = .accept (.ok addr) → A t addr)
    (hfresh : own → ∀ addr, a = .accept (.ok addr) →
      s.relay.connectionTable.lookup addr = none)
    (h : s.relayStep a = some s') :
    ∃ t', Steps Step (Cond A own) t t' ∧ Refines own p s' t' := by
  obtain ⟨fd, qs, hS, hC, hD, hU⟩ := hR
  obtain ⟨r, puts, hstep, rfl⟩ := System.relayStep_cases h
  obtain ⟨t', hm⟩ := relay_step_moves hS.inv hS.near
    (fun _ _ ho => (hU.head ho).imp_right fun ⟨x, up, _, hup⟩ => ⟨x, up, hup⟩) hA hfresh hstep
  have hr0 : (s.server.relayMoved 0 r puts).relay 0 = r := by simp
  have hport : s.relay.identifyingPort = p := hS.port
  refine ⟨t', hm.steps, fd, qs, ⟨hS.nrelays, hS.relays, hS.steady, ?_, ?_, ?_⟩,
    hm.farSame.clientSide hC fun n hn =>
      (Tunnel.Steps.key hm.steps).2 n (hn.trans_le hnum.announced_le), 
    hD.enqueue rfl rfl rfl rfl hm.down (hport ▸ hm.putsOk), ?_⟩
  · exact hr0.symm ▸ hm.inv
  · exact hr0.symm ▸ hm.identifyingPort.trans hport
  · exact hr0.symm ▸ hm.near
  · refine hU.dequeue rfl ?_ rfl (by rw [System.relay, System.relay, hr0]) hm.farSame.late
    rw [System.relay, hr0]
    exact hm.queue

/-! ## The remote proxy thread -/

/-- While the thread still sends, nothing held is on the stream. -/
theorem UpStream.unsent (h : UpStream p s t qs) (hp : s.client.remote.phase.stopped = false) :
    t.late.length ≤ s.client.remote.toRemoteProxy.length := by
  rcases h.held with hl | ⟨ql, -, -, -, hstop⟩
  · exact hl
  · rw [hp] at hstop
    cases hstop

/-- A client that differs in nothing the streams depend on. -/
theorem Refines.remote {remote : RemoteProxy} {close : Bool} (hR : Refines own p s t)
    (hsend : remote.sendq = s.client.remote.sendq) (hrecv : remote.recvq = s.client.remote.recvq)
    (hto : remote.toRemoteProxy = s.client.remote.toRemoteProxy)
    (hclose : s.client.close = true → close = true)
    (hh : t.late ≠ [] → s.client.remote.phase.stopped = true → remote.phase.stopped = true) :
    Refines own p { s with client := { s.client with remote, close } } t := by
  obtain ⟨fd, qs, hS, hC, hD, hU⟩ := hR
  refine ⟨fd, qs, hS, ⟨hC.ok, hC.port, fun hp => hclose (hC.closing hp), hC.far⟩,
    hD.of_eq ?_ rfl rfl rfl, hU.of_eq ?_ ?_ rfl hclose rfl ?_⟩
  · simp only [hrecv]
  · simp only [hsend]
  · simp only [System.upItems, System.relay, hto]
  · rcases hU.held with hl | ⟨ql, hql, hlen, hsuf, hstop⟩
    · exact .inl (hto.symm ▸ hl)
    · by_cases hlate : t.late = []
      · exact .inl (by simp [hlate])
      · exact .inr ⟨ql, hql, hto.symm ▸ hlen, hsend.symm ▸ hsuf, hh hlate hstop⟩

theorem Refines.relayIo {remote : RemoteProxy} {close : Bool} {received : Bytes}
    (hR : Refines own p s t) (hm : RemoteProxy.Moved s.client.remote remote) {phase : RemotePhase}
    (hs : s.client.remote.phase.stopped = false)
    (hrecv : received = System.receivedBy s.client.remote.recvq remote.recvq)
    (hdown : received <+: s.down) (hclose : s.client.close = true → close = true) :
    Refines own p { s with
      client := { s.client with close, remote := { remote with phase } }
      up := s.up ++ System.sentBy s.client.remote.sendq remote.sendq
      down := s.down.drop received.length } t := by
  obtain ⟨fd, qs, hS, hC, hD, hU⟩ := hR
  refine ⟨fd, qs, hS, ⟨hC.ok, hC.port, fun hp => hclose (hC.closing hp), hC.far⟩,
    hD.of_eq ?_ rfl rfl rfl, hU.of_eq ?_ ?_ rfl hclose rfl ?_⟩
  · have hr := append_receivedBy hm.recvq
    rw [← hrecv] at hr
    obtain ⟨rest, hrest⟩ := hdown
    simp only [← hr, ← hrest, List.drop_left, List.append_assoc]
  · simp only [List.append_assoc, sentBy_append hm.sendq]
  · simp only [System.upItems, System.relay, hm.toRemoteProxy]
  · exact .inl (hm.toRemoteProxy.symm ▸ hU.unsent hs)

/-- The queue of the local proxy is no part of what the far host is. -/
theorem ClientSide.inbox {c : Client} (hC : ClientSide p c t) (remote : RemoteProxy)
    {close : Bool} (hclose : c.close = true → close = true) (toLocal : List QueuedRelayMessage) :
    ClientSide p { remote, close, proxy := { c.proxy with toLocal }.wakeup } t where
  ok := ⟨{ hC.ok.inv with }, hC.ok.registered, hC.ok.ready, hC.ok.lost⟩
  port := hC.port
  closing h := hclose (hC.closing h)
  far := { hC.far with }

/-- The thread takes a frame off the stream and puts the item it makes of it, if any, on the
queue of the local proxy. -/
theorem Refines.clientMsg {msg : PortPortMessage} {recvq : Bytes} (hR : Refines own p s t)
    (hg : grabMsg s.client.remote.recvq = .ok (msg, recvq)) :
    Refines own p { s with
      client :=
        Client.processMsg { s.client with remote := { s.client.remote with recvq } } msg } t := by
  obtain ⟨fd, qs, hS, hC, hD, hU⟩ := hR
  obtain ⟨fs, rfl, hrest⟩ := grabMsg_stream hD.frames
    (by rw [← List.append_assoc]; exact hD.bytes) hg
  rw [← List.append_assoc] at hrest
  unfold Client.processMsg
  split
  · rename_i q hq
    refine ⟨fs, qs, hS, hC.inbox _ id _, hD.pop hrest ?_ rfl,
      hU.of_eq rfl rfl rfl id rfl hU.held⟩
    simp [System.downItems, System.proxy, LocalProxy.wakeup, LocalProxy.pending, hq]
  · rename_i hq
    split
    · refine ⟨fs, qs, hS, hC.inbox _ (fun _ => rfl) s.client.proxy.toLocal, hD.pop hrest ?_ rfl,
        hU.of_eq rfl rfl rfl (fun _ => rfl) rfl hU.held⟩
      simp [System.downItems, System.proxy, LocalProxy.wakeup, LocalProxy.pending, hq]
    · refine ⟨fs, qs, hS, ⟨hC.ok, hC.port, hC.closing, hC.far⟩, hD.pop hrest ?_ rfl,
        hU.of_eq rfl rfl rfl id rfl hU.held⟩
      simp [System.downItems, System.proxy, hq]

theorem framesOf_concat (qs : List QueuedRelayMessage) (q : QueuedRelayMessage) :
    framesOf (qs ++ [q]) = framesOf qs ++ encode (Manager.frameOf q) := by
  simp [framesOf]

/-- The oldest item waiting in the client has become a frame of the stream. -/
theorem UpStream.push {q : QueuedRelayMessage} {rest : List QueuedRelayMessage}
    {remote : RemoteProxy} (h : UpStream p s t qs)
    (hq : s.client.remote.toRemoteProxy = q :: rest) (hto : remote.toRemoteProxy = rest)
    (hsend : remote.sendq = s.client.remote.sendq ++ encode (Manager.frameOf q))
    (hp : remote.phase.stopped = true) :
    UpStream p { s with client := { s.client with remote } } t (qs ++ [q]) := by
  have hitems : ({ s with client := { s.client with remote } } : System).upItems (qs ++ [q]) =
      s.upItems qs := by
    simp [System.upItems, System.relay, hto, hq]
  refine ⟨?_, hitems ▸ h.items, hitems ▸ h.carries, h.late, ?_⟩
  · simp only [hsend, framesOf_concat, ← h.bytes, List.append_assoc]
  · have hheld := h.held
    unfold Held at hheld ⊢
    rw [hq, List.length_cons] at hheld
    simp only [hto, hsend]
    rcases hheld with hl | ⟨ql, ⟨l, rfl⟩, hlen, ⟨l', hl'⟩, -⟩
    · by_cases hlast : t.late.length ≤ rest.length
      · exact .inl hlast
      · refine .inr ⟨[q], List.suffix_append .., by simp; omega, ?_, hp⟩
        simp [framesOf]
    · refine .inr ⟨ql ++ [q], ⟨l, by simp⟩, by simp; omega, ⟨l', ?_⟩, hp⟩
      rw [framesOf_concat, ← hl', List.append_assoc]

/-- The thread puts the frame of an item on the stream. -/
theorem Refines.batchTurn (hp : 0 ≤ p ∧ p < 65536) (hR : Refines own p s t) {left : Nat} :
    Refines own p { s with
      client := { s.client with remote := s.client.remote.batchTurn left } } t := by
  unfold RemoteProxy.batchTurn
  split
  · exact hR.remote rfl rfl rfl id fun _ _ => rfl
  split
  · exact hR.remote rfl rfl rfl id fun _ _ => rfl
  · rename_i q rest hq
    obtain ⟨fd, qs, hS, hC, hD, hU⟩ := hR
    obtain ⟨hitem, hkind⟩ : ItemOk p q ∧ q.kind ≠ .newConnection :=
      hU.items q (by simp [System.upItems, hq])
    obtain ⟨hsend, hrecv, hto⟩ := RemoteProxy.enqueueSendq_state
      { s.client.remote with toRemoteProxy := rest } (encode (Manager.frameOf q))
    simp only [RemoteProxy.frameOf_eq hkind, (hitem.wellFormed hp).serialize]
    refine ⟨fd, qs ++ [q], hS, ⟨hC.ok, hC.port, hC.closing, hC.far⟩,
      hD.of_eq ?_ rfl rfl rfl, hU.push hq hto hsend ?_⟩
    · simp only [hrecv]
    · simp only
      split <;> rfl

theorem remote_refines {a : Client.RemoteAction} (hp : 0 ≤ p ∧ p < 65536)
    (hR : Refines own p s t) (h : s.remoteStep a = some s') : Refines own p s' t := by
  have hlate := hR.choose_spec.choose_spec.2.2.2.late
  obtain ⟨c, hc, ⟨io, rfl, hdown, rfl⟩ | ⟨hio, rfl⟩⟩ := System.remoteStep_cases h
  · cases Client.remoteStep_moves hc with
    | @relayIo mask _ events hphase =>
      exact hR.relayIo (s.client.remote.handleRelay_moved mask io) (by rw [hphase]; rfl) rfl hdown
        fun hclose => by simp [hclose]
  cases Client.remoteStep_moves hc with
  | leaves | joined => exact hR.remote rfl rfl rfl id fun _ _ => rfl
  | selects hphase hg =>
    refine hR.remote rfl rfl rfl id fun hl _ => ?_
    simp [(hlate hl).1] at hg
  | relayIo => exact absurd rfl (hio _)
  | wakeupRead hphase | dispatched hphase | breaks hphase =>
    exact hR.remote rfl rfl rfl id fun _ hstop => by rw [hphase] at hstop; cases hstop
  | takes hphase hgrab => exact hR.clientMsg hgrab
  | batch => exact hR.batchTurn hp

/-! ## The local proxy thread -/

theorem NearSame.serverSide {srv : Server} (hn : NearSame t t') (hS : ServerSide own p srv t) :
    ServerSide own p srv t' :=
  { hS with near := {
    accepted := hn.accepted.trans hS.near.accepted
    key := fun h => hn.key ▸ hS.near.key h
    ends := hn.near.trans hS.near.ends
    nearTab := fun k => hn.nearTab ▸ hS.near.nearTab k } }

/-- The oldest message on the way to the local proxy is the one it takes next. -/
theorem DownStream.head (h : DownStream p s t fd) {m : QueuedRelayMessage}
    {rest : List QueuedRelayMessage} {n : Nat} (hto : s.proxy.pending = m :: rest)
    (htag : s.downTags.head? = some n) : ItemOk p m ∧ ∃ down, t.down = tagged (n, m) :: down := by
  have hitems :
      s.downItems fd = m :: (rest ++ fd.filterMap itemOf ++ s.server.mgr.inboundData) := by
    simp [System.downItems, hto]
  have hcar := h.carries
  rw [hitems] at hcar
  obtain ⟨x, tags, down, htags, hd, -⟩ := hcar.cons
  obtain rfl : x = n := by simpa [htags] using htag
  exact ⟨h.items m (by simp [hitems]), down, hd⟩

/-- Nothing has been put on the queue behind the loop of the local proxy. -/
theorem UpStream.late_eq_nil (h : UpStream p s t qs) (hc : s.proxy.phase ≠ .closing)
    (hd : s.proxy.phase ≠ .done) : t.late = [] := by
  by_contra hne
  exact (h.late hne).2.elim hc hd

/-- The local proxy thread may have taken the oldest message. -/
theorem DownStream.dequeue {c : Client} {upTags : List Nat} (h : DownStream p s t fd)
    (hb : c.remote.recvq = s.client.remote.recvq)
    (hq : c.proxy.pending = s.proxy.pending ∧ t'.down = t.down ∨
      ∃ m x, s.proxy.pending = m :: c.proxy.pending ∧ t.down = tagged (x, m) :: t'.down) :
    DownStream p { s with
      client := c
      downTags := s.downTags.drop (s.proxy.pending.length - c.proxy.pending.length)
      upTags } t' fd := by
  have hitems {downTags upTags} :
      ({ s with client := c, downTags, upTags } : System).downItems fd =
        c.proxy.pending ++ (fd.filterMap itemOf ++ s.server.mgr.inboundData) := by
    simp [System.downItems, System.proxy]
  have hcar := h.carries
  refine ⟨h.frames, by simp only [hb, h.bytes], fun q hin => h.items q ?_, ?_⟩
  · rw [hitems] at hin
    rcases hq with ⟨ho, -⟩ | ⟨m, x, ho, -⟩
    · rwa [System.downItems, ← ho, List.append_assoc]
    · rw [System.downItems, ho, List.append_assoc]
      exact List.mem_cons_of_mem m hin
  · rw [hitems]
    rw [System.downItems, List.append_assoc] at hcar
    rcases hq with ⟨ho, hd⟩ | ⟨m, x, ho, hd⟩
    · simp only [ho, hd, Nat.sub_self, List.drop_zero]
      exact hcar
    · rw [ho, hd] at hcar
      simp only [ho, List.length_cons, Nat.add_sub_cancel_left]
      exact hcar.tail

/-- The local proxy thread has put messages on its queue. -/
theorem UpStream.enqueue {c : Client} {downTags : List Nat} {puts : List (Nat × QueuedRelayMessage)}
    (h : UpStream p s t qs) (hsend : c.remote.sendq = s.client.remote.sendq)
    (hphase : c.remote.phase = s.client.remote.phase)
    (hto : c.remote.toRemoteProxy = s.client.remote.toRemoteProxy ++ puts.map Prod.snd)
    (hputs : ∀ x ∈ puts, ItemOk p x.2 ∧ x.2.kind ≠ .newConnection)
    (hmoved : t'.up ++ t'.late = t.up ++ t.late ++ puts.map tagged)
    (hlen : t.late = [] ∧ t'.late = [] ∨ t'.late.length = t.late.length + puts.length)
    (hlate : t'.late ≠ [] → c.close = true ∧ (c.proxy.phase = .closing ∨ c.proxy.phase = .done)) :
    UpStream p { s with client := c, downTags, upTags := s.upTags ++ puts.map Prod.fst } t' qs := by
  have hitems {downTags upTags} : ({ s with client := c, downTags, upTags } : System).upItems qs =
      s.upItems qs ++ puts.map Prod.snd := by
    simp [System.upItems, System.relay, hto]
  refine ⟨by simp only [hsend, h.bytes], fun q hin => ?_, ?_, hlate, ?_⟩
  · rw [hitems] at hin
    rcases List.mem_append.mp hin with hin | hin
    · exact h.items q hin
    · obtain ⟨x, hx, rfl⟩ := List.mem_map.mp hin
      exact hputs x hx
  · rw [hitems, hmoved]
    exact h.carries.append puts
  · unfold Held
    simp only [hto, hsend, hphase, List.length_append, List.length_map]
    rcases hlen with ⟨-, hl'⟩ | hlen
    · exact .inl (by simp [hl'])
    · rcases h.held with hl | ⟨ql, hql, hll, hsuf, hstop⟩
      · exact .inl (by omega)
      · exact .inr ⟨ql, hql, by omega, hsuf, hstop⟩

/-- A thread is in its final clean-up only if the close event was set. -/
theorem LocalProxy.step_closing {l l' : LocalProxy} {close : Bool} {a : LocalProxy.LocalAction}
    {puts : List (Nat × QueuedRelayMessage)} (h : l.step close a = some (l', puts))
    (hp : l'.phase = .closing) : close = true ∨ l.phase = .closing := by
  cases LocalProxy.step_moves h with
  | begins =>
    simp only at hp
    split at hp
    · exact .inl ‹_›
    · cases hp
  | item | io => cases LocalProxy.after_phase hp nofun
  | drops hph | dropFails hph | ends hph => exact .inr hph
  | _ => cases hp

theorem LocalProxy.step_done {l : LocalProxy} {close : Bool} {a : LocalProxy.LocalAction}
    (h : l.phase = .done) : l.step close a = none := by
  simp [LocalProxy.step, h]

theorem proxy_refines {a : LocalProxy.LocalAction} (hnum : Tunnel.Numbered t)
    (hR : Refines own p s t) (h : s.proxyStep a = some s') :
    ∃ t', Steps Step (Cond A own) t t' ∧ Refines own p s' t' := by
  obtain ⟨fd, qs, hS, hC, hD, hU⟩ := hR
  obtain ⟨htag, l, puts, hl, rfl⟩ := System.proxyStep_cases h
  have hdown : ∀ n io m rest, a = .item n io → s.proxy.toLocal = m :: rest →
      ItemOk s.proxy.remotePort m ∧
        (m.kind = .newConnection → n = t.announced ∧ t.key n = m.peer) ∧
        ∃ down, t.down = tagged (n, m) :: down := by
    rintro n io m rest rfl hto
    obtain ⟨left, -, -, hphase, -⟩ := LocalProxy.step_item hl
    have hpend := hC.ok.pending_eq (by simp [show s.client.proxy.phase = _ from hphase])
    obtain ⟨hm, down, hd⟩ := hD.head (hpend.trans hto) (by simpa [System.tagAllowed] using htag)
    have hport : s.proxy.remotePort = p := hC.port
    refine ⟨hport ▸ hm, fun hk => ?_, down, hd⟩
    have hd' : t.down = (n, .opened m.peer) :: down := by simpa [tagged, msgOf, hk] using hd
    exact ⟨(hnum.next hd').1, (hnum.head hd').2⟩
  have hlate₀ (hp : s.proxy.phase ≠ .closing) : t.late = [] :=
    hU.late_eq_nil hp fun hd => by cases (LocalProxy.step_done hd).symm.trans hl
  obtain ⟨t', hm⟩ : ∃ t', FarStepMoves A own t s.proxy l puts t' :=
    proxy_step_moves hC.ok hC.far hlate₀ hdown hl
  refine ⟨t', hm.steps, fd, qs, hm.nearSame.serverSide hS,
    ⟨hm.ok, hm.remotePort.trans hC.port, fun hp => ?_, hm.far⟩, hD.dequeue rfl hm.queue,
    hU.enqueue rfl rfl rfl (hC.port ▸ hm.putsOk) ?_ ?_ ?_⟩
  · exact (LocalProxy.step_closing hl hp).elim id hC.closing
  · rcases hm.up with ⟨hp, hup, hlate⟩ | ⟨-, -, hup, hlate⟩
    · rw [hup, hlate, hlate₀ hp, List.append_nil, List.append_nil]
    · rw [hup, hlate, List.append_assoc]
  · rcases hm.up with ⟨hp, -, hlate⟩ | ⟨-, -, -, hlate⟩
    · exact .inl ⟨hlate₀ hp, hlate.trans (hlate₀ hp)⟩
    · exact .inr (by rw [hlate, List.length_append, List.length_map])
  · intro hne
    rcases hm.up with ⟨hp, -, hlate⟩ | ⟨hp, hp', -, -⟩
    · exact absurd (hlate.trans (hlate₀ hp)) hne
    · exact ⟨hC.closing hp, hp'⟩

/-! ## Runs -/

theorem start_refines (own : Prop) (p : Int) :
    Refines own p (System.start p) (Tunnel.init fun _ => (.dotted 0 0 0 0, 0)) := by
  have hdown : (System.start p).downItems [] = [] := rfl
  have hup : (System.start p).upItems [] = [] := rfl
  refine ⟨[], [], ⟨rfl, rfl, rfl, ?_, rfl, ?_⟩, ⟨⟨?_, nofun, nofun, nofun⟩, rfl, nofun, ?_⟩, ?_, ?_⟩
  · exact ⟨nofun, nofun, nofun, nofun, nofun⟩
  · exact ⟨rfl, nofun, rfl, fun _ => rfl⟩
  · exact ⟨nofun, nofun, nofun⟩
  · exact ⟨nofun, rfl, fun n => by simp [Tunnel.init, System.start],
      fun n => by simp [Tunnel.init, System.start], fun _ => rfl,
      by simp [Tunnel.init, System.start]⟩
  · exact ⟨by simp, rfl, by simp [hdown], by rw [hdown]; exact ⟨rfl, rfl⟩⟩
  · exact ⟨rfl, by simp [hup], by rw [hup]; exact ⟨rfl, rfl⟩, by simp [Tunnel.init],
      .inl (Nat.le_refl _)⟩

variable {P : System → System.Action → Prop}

theorem step_refines {a : System.Action} (hp : 0 ≤ p ∧ p < 65536) (hnum : Tunnel.Numbered t)
    (hR : Refines own p s t) (hA : ∀ addr, a = .relay (.accept (.ok addr)) → A t addr)
    (hfresh : own → ∀ addr, a = .relay (.accept (.ok addr)) →
      s.relay.connectionTable.lookup addr = none)
    (h : System.step s a = some s') :
    ∃ t', Steps Step (Cond A own) t t' ∧ Refines own p s' t' := by
  cases a with
  | mgr a => exact ⟨t, .refl, mgr_refines hp hR h⟩
  | relay a =>
    exact relay_refines hnum hR (fun addr he => hA addr (he ▸ rfl))
      (fun ho addr he => hfresh ho addr (he ▸ rfl)) h
  | remote a => exact ⟨t, .refl, remote_refines hp hR h⟩
  | proxy a => exact proxy_refines hnum hR h
  | serverShutdown =>
    cases h
    have hS := hR.choose_spec.choose_spec.1
    exact ⟨t, .refl, hR.server ⟨hS.nrelays, hS.relays, hS.steady, hS.inv, hS.port, hS.near⟩
      rfl rfl rfl rfl⟩
  | clientShutdown =>
    cases h
    exact ⟨t, .refl, hR.remote rfl rfl rfl (fun _ => rfl) fun _ hstop => hstop⟩

/-- The state `s` of the system is the reachable state `t` of a tunnel. -/
structure Models (A : State Peer UInt8 → Peer → Prop) (own : Prop) (p : Int) (s : System)
    (t : State Peer UInt8) : Prop where
  port : 0 < p ∧ p < 65536
  reachable : Tunnel.Reachable A own t
  refines : Refines own p s t

/-- **The composed system refines the tunnel**: every reachable state is one of a reachable state
of a tunnel whose accepts meet the condition `A`, if the accepts of the run do. -/
theorem System.Reachable.models
    (hA : ∀ s p t addr, Models A own p s t → P s (.relay (.accept (.ok addr))) → A t addr)
    (hfresh : own → ∀ s p t addr, Models A own p s t → P s (.relay (.accept (.ok addr))) →
      s.relay.connectionTable.lookup addr = none)
    (h : System.Reachable P s) : ∃ p t, Models A own p s t := by
  obtain ⟨t, ht, p, hport, hR⟩ : ∃ t, Tunnel.Reachable A own t ∧
      ∃ p : Int, (0 < p ∧ p < 65536) ∧ Refines own p s t := Transition.Reach.simulates
    (R := fun s t => ∃ p : Int, (0 < p ∧ p < 65536) ∧ Refines own p s t)
    (by
      rintro _ ⟨p, h0, hlt, rfl⟩
      exact ⟨_, ⟨_, rfl⟩, p, ⟨h0, hlt⟩, start_refines own p⟩)
    (by
      rintro s a s' t ht ⟨p, hport, hR⟩ hP hs
      obtain ⟨t', hsteps, hR'⟩ := step_refines ⟨Int.le_of_lt hport.1, hport.2⟩
        (Tunnel.Reachable.numbered ht) hR
        (fun addr he => hA s p t addr ⟨hport, ht, hR⟩ (he ▸ hP))
        (fun ho addr he => hfresh ho s p t addr ⟨hport, ht, hR⟩ (he ▸ hP)) hs
      exact ⟨t', hsteps, p, hport, hR'⟩) h
  exact ⟨p, t, hport, ht, hR⟩

end
end PortPort
