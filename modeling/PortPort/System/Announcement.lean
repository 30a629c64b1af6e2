import PortPort.System.Handshake
import PortPort.System.Session

/-! # The server that has announced its relay

The composed system starts behind the announcement of its relay. A server that has announced it,
with a part of the frame still to be sent, differs from the composed system's in the log and in what
stands before `sendq`, and takes the same steps. -/

namespace PortPort
open PortPortMessage
open Server (ManagerAction)

namespace Manager

/-- The manager has sent OPEN_RELAY too, but for the bytes `pending`. -/
def ahead (p : Int) (pending : Bytes) (m : Manager) : Manager :=
  { m with
    sendq := pending ++ m.sendq
    sendLog := OPEN_RELAY p :: m.sendLog
    writeEnabled := m.writeEnabled || pending ≠ []
    mask := if pending = [] then m.mask else .rw }

variable {p : Int} {pending : Bytes} {m : Manager}

@[simp] theorem ahead_phase : (m.ahead p pending).phase = m.phase := rfl
@[simp] theorem ahead_closeThread : (m.ahead p pending).closeThread = m.closeThread := rfl
@[simp] theorem ahead_inboundData : (m.ahead p pending).inboundData = m.inboundData := rfl
@[simp] theorem ahead_relays : (m.ahead p pending).relays = m.relays := rfl
@[simp] theorem ahead_recvq : (m.ahead p pending).recvq = m.recvq := rfl

theorem ahead_addToSendq {data : Bytes} (hdata : data ≠ []) :
    (m.ahead p pending).addToSendq data = (m.addToSendq data).ahead p pending := by
  unfold addToSendq ahead
  by_cases hp : pending = []
  · by_cases hw : m.writeEnabled = true
    · simp [hp, hw]
    · simp [hp, hw, hdata]
  · by_cases hw : m.writeEnabled = true
    · simp [hp, hw]
    · simp [hp, hw, hdata]

theorem ahead_send (msg : PortPortMessage) :
    (m.ahead p pending).send msg = (m.send msg).map (ahead p pending) := by
  unfold send
  cases hser : msg.serialize with
  | error e => rfl
  | ok data =>
    simp only [Except.map, ahead_addToSendq (serialize_ne_nil hser)]
    rfl

theorem ahead_inboundTurn (left : Nat) :
    (m.ahead p pending).inboundTurn left = (m.inboundTurn left).ahead p pending := by
  unfold inboundTurn
  by_cases hstop : (decide (left = 0) || m.closeThread) = true
  · simp only [ahead_closeThread, hstop, if_true]
    rfl
  rw [if_neg hstop, if_neg (show ¬ (decide (left = 0) || (m.ahead p pending).closeThread) = true
    from hstop)]
  simp only [ahead_inboundData]
  cases m.inboundData with
  | nil => rfl
  | cons q items =>
    have hpop : ({ m.ahead p pending with inboundData := items } : Manager).send (frameOf q) =
      ({ m with inboundData := items }.send (frameOf q)).map (ahead p pending) :=
      ahead_send (m := { m with inboundData := items }) (frameOf q)
    simp only at hpop ⊢
    rw [hpop]
    generalize Manager.send _ (frameOf q) = sent
    cases sent with
    | error e => rfl
    | ok m => rfl

theorem ahead_selectable : (m.ahead p []).selectable = m.selectable := by
  funext events
  simp [selectable, ahead]

/-- The outcome of a callback, with the announcement. -/
def aheadOut (p : Int) (pending : Bytes) (out : Outcome Manager) : Outcome Manager :=
  { out with state := out.state.ahead p pending }

theorem ahead_handleRead (recv : Except OSError Bytes) :
    (m.ahead p pending).handleRead recv = aheadOut p pending (m.handleRead recv) := by
  cases recv with
  | ok data => rfl
  | error e => cases e <;> rfl

theorem ahead_handleWrite (send : Except OSError Nat) :
    (m.ahead p []).handleWrite send = aheadOut p [] (m.handleWrite send) := by
  cases send with
  | ok len =>
    unfold handleWrite
    by_cases hd : m.sendq.drop len = []
    · simp [ahead, aheadOut, hd]
    · simp [ahead, aheadOut, hd]
  | error e =>
    by_cases hd : m.sendq = []
    · cases e <;> simp [handleWrite, ahead, aheadOut, hd]
    · cases e <;> simp [handleWrite, ahead, aheadOut, hd]

/-- The part of the callback behind `mask & EVENT_READ`, on what the other part has left. -/
theorem ahead_readPart (out : Outcome Manager) (read : Bool) (recv : Except OSError Bytes) :
    (if (aheadOut p pending out).raised = none ∧ read then
      (aheadOut p pending out).state.handleRead recv else aheadOut p pending out) =
    aheadOut p pending
      (if out.raised = none ∧ read then out.state.handleRead recv else out) := by
  rw [apply_ite (aheadOut p pending), ← ahead_handleRead]
  rfl

theorem ahead_handleRelayClient (mask : Mask) (io : ClientIO) :
    (m.ahead p []).handleRelayClient mask io =
      aheadOut p [] (m.handleRelayClient mask io) := by
  have hwrite : (if (mask.write && (m.ahead p []).sendq ≠ []) = true then
      (m.ahead p []).handleWrite io.send else { state := m.ahead p [] }) =
      aheadOut p [] (if (mask.write && m.sendq ≠ []) = true then m.handleWrite io.send
        else { state := m }) := by
    rw [apply_ite (aheadOut p []), ← ahead_handleWrite]
    rfl
  unfold handleRelayClient
  simp only
  rw [hwrite, ahead_readPart]

/-- No more of the announcement goes out behind this callback: it has raised, or the thread is to
end. -/
def Stuck (sendq : Bytes) (out : Outcome Manager) : Prop :=
  out.state.sendq = sendq ∧ (out.raised ≠ none ∨ out.state.closeThread = true)

/-- What the part of the callback behind `mask & EVENT_WRITE` does behind the announcement. -/
def writePart (m : Manager) (write : Bool) (send : Except OSError Nat) : Outcome Manager :=
  if write && m.sendq ≠ [] then m.handleWrite send else { state := m }

theorem handleRelayClient_eq (m : Manager) (mask : Mask) (io : ClientIO) :
    m.handleRelayClient mask io =
      if (m.writePart mask.write io.send).raised = none ∧ mask.read then
        (m.writePart mask.write io.send).state.handleRead io.recv
      else m.writePart mask.write io.send := rfl

/-- A `send` that accepts nothing. -/
theorem writePart_zero (m : Manager) (write : Bool) :
    m.writePart write (.ok 0) = { state := m } := by
  unfold writePart
  split
  · rename_i h
    simp only [Bool.and_eq_true, decide_eq_true_eq] at h
    simp [handleWrite, h.2]
  · rfl

/-- A `send` that begins in the announcement and ends in it. -/
theorem ahead_send_within {n : Nat} (hn : n < pending.length) :
    (m.ahead p pending).writePart true (.ok n) = aheadOut p (pending.drop n) { state := m } := by
  have hp : pending ≠ [] := List.ne_nil_of_length_pos (Nat.zero_lt_of_lt hn)
  have hrest : pending.drop n ≠ [] := by simpa using hn
  have hdrop : (pending ++ m.sendq).drop n = pending.drop n ++ m.sendq :=
    List.drop_append_of_le_length (Nat.le_of_lt hn)
  simp [writePart, handleWrite, ahead, aheadOut, hp, hrest, hdrop]

/-- A `send` that takes the last of the announcement along. -/
theorem ahead_send_past (hp : pending ≠ []) (hm : m.Armed) {n : Nat}
    (hn : pending.length ≤ n) :
    (m.ahead p pending).writePart true (.ok n) =
      aheadOut p [] (m.writePart true (.ok (n - pending.length))) := by
  have hdrop : (pending ++ m.sendq).drop n = m.sendq.drop (n - pending.length) := by
    rw [List.drop_append, List.drop_of_length_le hn, List.nil_append]
  by_cases hq : m.sendq = []
  · have hflag : m.writeEnabled = false := by
      rw [← Bool.not_eq_true, hm.flag]
      exact not_not.mpr hq
    have hmask : m.mask = .r := by simpa [hflag] using hm.mask
    simp [writePart, handleWrite, ahead, aheadOut, hp, hn, hq, hflag, hmask]
  · have hflag := hm.flag.mpr hq
    have hmask : m.mask = .rw := by simpa [hflag] using hm.mask
    by_cases hrest : m.sendq.drop (n - pending.length) = []
    · simp [writePart, handleWrite, ahead, aheadOut, hp, hdrop, hq, hrest]
    · simp [writePart, handleWrite, ahead, aheadOut, hp, hdrop, hq, hrest, hflag, hmask]

theorem ahead_writePart (hp : pending ≠ []) (hm : m.Armed) (write : Bool)
    {send : Except OSError Nat} (hs : sendAllowed send (pending ++ m.sendq) = true) :
    Stuck (pending ++ m.sendq) ((m.ahead p pending).writePart write send) ∨
    ∃ pending' send', sendAllowed send' m.sendq = true ∧
      (m.ahead p pending).writePart write send =
        aheadOut p pending' (m.writePart write send') ∧
      (pending' ≠ [] → (m.writePart write send').state.sendq = m.sendq) := by
  have hzero (pending' : Bytes) (h : (m.ahead p pending).writePart write send =
      aheadOut p pending' { state := m }) : ∃ pending' send', sendAllowed send' m.sendq = true ∧
        (m.ahead p pending).writePart write send =
          aheadOut p pending' (m.writePart write send') ∧
        (pending' ≠ [] → (m.writePart write send').state.sendq = m.sendq) := by
    refine ⟨pending', .ok 0, by simp [sendAllowed], ?_, fun _ => ?_⟩
    · rw [writePart_zero, h]
    · rw [writePart_zero]
  cases write with
  | false => exact .inr (hzero pending rfl)
  | true =>
    cases send with
    | ok n =>
      by_cases hn : n < pending.length
      · exact .inr (hzero _ (ahead_send_within hn))
      · simp only [sendAllowed, decide_eq_true_eq] at hs
        have hn : pending.length ≤ n := Nat.le_of_not_lt hn
        refine .inr ⟨[], .ok (n - pending.length), ?_, ahead_send_past hp hm hn,
          fun h => absurd rfl h⟩
        rw [List.length_append] at hs
        simp only [sendAllowed, decide_eq_true_eq]
        omega
    | error e =>
      cases e with
      | blockingIo | sslWantRead | sslWantWrite =>
        exact .inr (hzero pending (by simp [writePart, handleWrite, ahead, aheadOut, hp]))
      | connectionReset | brokenPipe =>
        exact .inl (by simp [Stuck, writePart, handleWrite, ahead, hp])
      | _ => exact .inl (by simp [Stuck, writePart, handleWrite, ahead, hp])

/-- The mask of an event while there is nothing to send but the announcement. -/
def clipMask (sendq : Bytes) (mask : Mask) : Mask :=
  if sendq = [] then ⟨mask.read, false⟩ else mask

theorem writePart_clip (mask : Mask) (send : Except OSError Nat) :
    m.writePart (clipMask m.sendq mask).write send = m.writePart mask.write send := by
  unfold writePart clipMask
  by_cases hq : m.sendq = []
  · simp [hq]
  · rw [if_neg hq]

theorem clipMask_read (sendq : Bytes) (mask : Mask) : (clipMask sendq mask).read = mask.read := by
  unfold clipMask
  split <;> rfl

theorem handleRead_sendq (recv : Except OSError Bytes) :
    (m.handleRead recv).state.sendq = m.sendq := by
  cases recv with
  | ok data => rfl
  | error e => cases e <;> rfl

theorem Stuck.read {sendq : Bytes} {out : Outcome Manager} (h : Stuck sendq out) (read : Bool)
    (recv : Except OSError Bytes) :
    Stuck sendq (if out.raised = none ∧ read then out.state.handleRead recv else out) := by
  split
  · rename_i hr
    have hclose := h.2.resolve_left (not_not.mpr hr.1)
    refine ⟨(handleRead_sendq recv).trans h.1, ?_⟩
    cases recv with
    | ok data => exact .inr (by simp [handleRead, hclose])
    | error e => cases e <;> simp [handleRead, hclose]
  · exact h

/-- The callback with a part of the announcement still to be sent. -/
theorem ahead_callback (hp : pending ≠ []) (hm : m.Armed) (mask : Mask) {io : ClientIO}
    (hs : sendAllowed io.send (pending ++ m.sendq) = true) :
    Stuck (pending ++ m.sendq) ((m.ahead p pending).handleRelayClient mask io) ∨
    ∃ pending' send', sendAllowed send' m.sendq = true ∧
      (m.ahead p pending).handleRelayClient mask io = aheadOut p pending'
        (m.handleRelayClient (clipMask m.sendq mask) { io with send := send' }) ∧
      (pending' ≠ [] → (m.handleRelayClient (clipMask m.sendq mask)
        { io with send := send' }).state.sendq = m.sendq) := by
  rw [handleRelayClient_eq]
  rcases ahead_writePart hp hm mask.write hs with hstuck | ⟨pending', send', hs', heq, hsame⟩
  · exact .inl (hstuck.read mask.read io.recv)
  · refine .inr ⟨pending', send', hs', ?_, fun hp' => ?_⟩
    · rw [heq, ahead_readPart, handleRelayClient_eq, writePart_clip, clipMask_read]
    · rw [handleRelayClient_eq, writePart_clip, clipMask_read]
      split
      · rw [handleRead_sendq, hsame hp']
      · exact hsame hp'

end Manager

/-- A change of the manager that has nothing to do with its queue. -/
structure Manager.Inert (f : Manager → Manager) : Prop where
  reads : ∀ m, (f m).inboundData = m.inboundData ∧ (f m).wakeupPending = m.wakeupPending
  puts : ∀ m inboundData wakeupPending,
    f { m with inboundData, wakeupPending } = { f m with inboundData, wakeupPending }

namespace Server

/-- The server with the first relay of `s`, and no other, and a manager that is made of its
manager. -/
def alongside (portRange : Option (Int × Int)) (f : Manager → Manager) (s : Server) : Server :=
  { s with
    portRange
    relay := Function.update (fun _ => { identifyingPort := 0 }) 0 (s.relay 0)
    mgr := f s.mgr }

def ahead (portRange : Option (Int × Int)) (p : Int) (pending : Bytes) (s : Server) : Server :=
  s.alongside portRange (Manager.ahead p pending)

/-- The server has the one relay of the composed system, which is registered under its port. -/
structure Single (p : Int) (s : Server) : Prop where
  nrelays : s.nrelays = 1
  relays : s.mgr.relays = AList.singleton p 0
  closing : ∀ rids, s.mgr.phase = .closing rids → ∀ rid ∈ rids, rid = 0
  peaceful : s.Peaceful

variable {portRange : Option (Int × Int)} {p : Int} {pending : Bytes} {s : Server}

@[simp] theorem ahead_mgr : (s.ahead portRange p pending).mgr = s.mgr.ahead p pending := rfl
@[simp] theorem ahead_nrelays : (s.ahead portRange p pending).nrelays = s.nrelays := rfl
@[simp] theorem ahead_closeService :
    (s.ahead portRange p pending).closeService = s.closeService := rfl
@[simp] theorem ahead_relay : (s.ahead portRange p pending).relay 0 = s.relay 0 := by
  simp [ahead, alongside]

theorem ahead_setRelay (r : Relay) :
    (s.ahead portRange p pending).setRelay 0 r = (s.setRelay 0 r).ahead portRange p pending := by
  simp [ahead, alongside, setRelay]

theorem ahead_goto (phase : ManagerPhase) :
    (s.ahead portRange p pending).goto phase = (s.goto phase).ahead portRange p pending := rfl

theorem Single.bindAllowed (h : s.Single p) :
    (s.ahead portRange p pending).bindAllowed = s.bindAllowed := by
  funext r
  cases r with
  | bound port => simp [Server.bindAllowed, portListening, h.nrelays, List.range_one]
  | _ => rfl

theorem Single.lookup (h : s.Single p) {port : Int} {rid : Nat}
    (hl : s.mgr.relays.lookup port = some rid) : rid = 0 := by
  rw [h.relays] at hl
  exact (AList.mem_lookup_iff.mp hl |> List.mem_singleton.mp |> Sigma.mk.inj_iff.mp).2 |> eq_of_heq

/-- A turn of the receive loop. -/
theorem Single.recvTurn (h : s.Single p) (results : List Relay.BindResult) :
    (s.ahead portRange p pending).recvTurn results =
      (s.recvTurn results).map (ahead portRange p pending) := by
  unfold Server.recvTurn
  simp only [ahead_mgr, Manager.ahead_recvq]
  by_cases hq : s.mgr.recvq = []
  · simp only [hq, if_true]
    rfl
  simp only [hq, if_false]
  cases hg : grabMsg s.mgr.recvq with
  | error e =>
    have hv := h.peaceful.refuses hg
    rw [← loops_eq_violation] at hv
    simp only
    rw [recvExcept_breaks hv, recvExcept_breaks hv]
    rfl
  | ok x =>
    obtain ⟨msg, recvq⟩ := x
    obtain ⟨ht, rid, hl⟩ := h.peaceful.takes hg
    obtain rfl := h.lookup hl
    have hpop : (s.ahead portRange p pending).withMgr { s.mgr.ahead p pending with recvq } =
      (s.withMgr { s.mgr with recvq }).ahead portRange p pending := rfl
    simp only at hpop ⊢
    rw [hpop]
    rcases ht with ht | ht
    · simp only [processMsg, ht, ahead_mgr, Manager.ahead_relays, withMgr_mgr, hl, ahead_relay,
        ahead_setRelay, ahead_goto, Option.map_some]
    · simp only [processMsg, ht, ahead_mgr, Manager.ahead_relays, withMgr_mgr, hl, ahead_relay,
        ahead_setRelay, ahead_goto, Option.map_some]

/-- A step of the thread that is no return of `select` and no callback of the socket. -/
theorem Single.mgrStep (h : s.Single p) {a : ManagerAction}
    (ha : pending = [] ∨ (∀ events, a ≠ .select events) ∧ ∀ io, a ≠ .clientIo io) :
    (s.ahead portRange p pending).mgrStep a =
      (s.mgrStep a).map (ahead portRange p pending) := by
  have hsteady := h.peaceful.steady
  unfold Server.mgrStep
  simp only [ahead_mgr, Manager.ahead_phase]
  cases hp : s.mgr.phase with
  | top =>
    cases a with
    | turn =>
      simp only [ahead_closeService, Manager.ahead_closeThread, Manager.ahead_relays]
      rw [apply_ite (Option.map _)]
      rfl
    | select events =>
      obtain rfl : pending = [] := ha.resolve_right fun h => h.1 events rfl
      simp only [ahead_closeService, Manager.ahead_closeThread, Manager.ahead_selectable]
      rw [apply_ite (Option.map _)]
      rfl
    | _ => rfl
  | dispatch events =>
    cases events with
    | nil => cases a <;> rfl
    | cons event events =>
      obtain ⟨key, mask⟩ := event
      cases key with
      | wakeup => cases a <;> rfl
      | client =>
        cases a with
        | clientIo io =>
          obtain rfl : pending = [] := ha.resolve_right fun h => h.2 io rfl
          simp only [Manager.ahead_handleRelayClient]
          rw [apply_ite (Option.map _)]
          rfl
        | _ => rfl
  | recvLoop =>
    cases a with
    | recvTurn results =>
      simp only [h.bindAllowed, h.recvTurn]
      rw [apply_ite (Option.map _)]
      rfl
    | _ => rfl
  | creating rid => rw [hp] at hsteady; cases hsteady
  | joining port rid => rw [hp] at hsteady; cases hsteady
  | inboundLoop left =>
    cases a with
    | turn =>
      simp only [Manager.ahead_inboundTurn]
      rfl
    | _ => rfl
  | closing rids =>
    cases a with
    | turn =>
      cases rids with
      | nil => rfl
      | cons rid rids =>
        obtain rfl := h.closing _ hp rid List.mem_cons_self
        simp only [ahead_relay, ahead_setRelay, ahead_goto, Option.map_some]
    | _ => cases rids <;> rfl
  | closed => rfl
  | crashed e => rfl

variable {f : Manager → Manager}

theorem alongside_relay : (s.alongside portRange f).relay 0 = s.relay 0 := by
  simp [alongside]

theorem alongside_listenBlocked (hn : s.nrelays = 1) (a : Relay.RelayAction) :
    (s.alongside portRange f).listenBlocked 0 a = s.listenBlocked 0 a := by
  cases a with
  | listen result =>
    cases result with
    | ok _ => simp [listenBlocked, portListening, alongside, hn, List.range_one]
    | error e => rfl
  | _ => rfl

theorem alongside_relayMoved (hf : Manager.Inert f) (r : Relay)
    (puts : List (Nat × QueuedRelayMessage)) :
    (s.alongside portRange f).relayMoved 0 r puts =
      (s.relayMoved 0 r puts).alongside portRange f := by
  have hputs := hf.puts s.mgr (s.mgr.inboundData ++ puts.map Prod.snd)
    (s.mgr.wakeupPending || !puts.isEmpty)
  simp [alongside, relayMoved, setRelay, hputs, (hf.reads s.mgr).1, (hf.reads s.mgr).2]

theorem alongside_relayStep (hn : s.nrelays = 1) (hf : Manager.Inert f) (a : Relay.RelayAction) :
    (s.alongside portRange f).relayStep 0 a =
      (s.relayStep 0 a).map fun x => (x.1.alongside portRange f, x.2) := by
  have hnrelays : (s.alongside portRange f).nrelays = s.nrelays := rfl
  have hservice : (s.alongside portRange f).closeService = s.closeService := rfl
  unfold Server.relayStep
  rw [alongside_listenBlocked hn, hnrelays, apply_ite (Option.map _), alongside_relay,
    Option.map_map, hservice]
  simp only [alongside_relayMoved hf, Function.comp_def, Option.map_none]

end Server

namespace System

/-- The system behind the announcement, with the announcement in the log of the server. -/
def ahead (portRange : Option (Int × Int)) (p : Int) (s : System) : System :=
  { s with server := s.server.ahead portRange p [] }

variable {portRange : Option (Int × Int)} {p : Int} {s : System}

theorem mgrStep_ahead (h : s.server.Single p) (a : ManagerAction) :
    (s.ahead portRange p).mgrStep a = (s.mgrStep a).map (ahead portRange p) := by
  unfold System.mgrStep
  rw [show (s.ahead portRange p).server.mgrStep a = _ from h.mgrStep (.inl rfl)]
  cases s.server.mgrStep a with
  | none => rfl
  | some server =>
    cases a with
    | clientIo io =>
      simp only [Option.map_some]
      rw [apply_ite (Option.map _)]
      rfl
    | _ => rfl

/-- A step of the relay is one of the relay beside it. -/
theorem relayStep_alongside {f : Manager → Manager} {t : System}
    (hserver : t.server = s.server.alongside portRange f) (hdown : t.downTags = s.downTags)
    (hup : t.upTags = s.upTags) (hn : s.server.nrelays = 1) (hf : Manager.Inert f)
    (a : Relay.RelayAction) :
    t.relayStep a = (s.relayStep a).map fun s' => { t with
      server := s'.server.alongside portRange f
      downTags := s'.downTags
      upTags := s'.upTags } := by
  unfold System.relayStep
  rw [hserver, Server.alongside_relayStep hn hf, Option.map_map, Option.map_map]
  simp only [Function.comp_def, relay, Server.alongside_relay, hserver, hdown, hup]

theorem inert_ahead (p : Int) (pending : Bytes) : Manager.Inert (Manager.ahead p pending) :=
  ⟨fun _ => ⟨rfl, rfl⟩, fun _ _ _ => rfl⟩

theorem relayStep_ahead (h : s.server.Single p) (a : Relay.RelayAction) :
    (s.ahead portRange p).relayStep a = (s.relayStep a).map (ahead portRange p) := by
  have hserver : (s.ahead portRange p).server =
    s.server.alongside portRange (Manager.ahead p []) := rfl
  rw [relayStep_alongside hserver rfl rfl h.nrelays (inert_ahead p []) a]
  cases hs : s.relayStep a with
  | none => rfl
  | some s' =>
    obtain ⟨r, puts, -, rfl⟩ := relayStep_cases hs
    rfl

theorem step_ahead (h : s.server.Single p) (a : Action) :
    (s.ahead portRange p).step a = (s.step a).map (ahead portRange p) := by
  cases a with
  | mgr a => exact mgrStep_ahead h a
  | relay a => exact relayStep_ahead h a
  | remote a =>
    simp only [step, remoteStep]
    rw [show (s.ahead portRange p).client = s.client from rfl]
    cases s.client.remoteStep a with
    | none => rfl
    | some client =>
      cases a with
      | relayIo io =>
        simp only
        rw [apply_ite (Option.map _)]
        rfl
      | _ => rfl
  | proxy a =>
    simp only [step, proxyStep]
    rw [apply_ite (Option.map _), Option.map_map]
    rfl
  | serverShutdown => rfl
  | clientShutdown => rfl

end System

/-! ## The composed system has this server -/

/-- The thread closes no relay but the first. -/
def Server.ClosesFirst (s : Server) : Prop :=
  ∀ rids, s.mgr.phase = .closing rids → ∀ rid ∈ rids, rid = 0

theorem Server.ClosesFirst.of_phase {s : Server} (h : ∀ rids, s.mgr.phase ≠ .closing rids) :
    s.ClosesFirst := fun rids he => absurd he (h rids)

theorem Server.Replies.closesFirst {s s' : Server} {fs : List PortPortMessage}
    (h : Server.Replies s fs s') : s'.ClosesFirst := by
  refine .of_phase fun rids he => ?_
  rcases h.replied.phase with hp | hp
  · cases hp.symm.trans he
  · cases hp.symm.trans he

theorem Server.mgrStep_closesFirst {p : Int} {s s' : Server} {a : ManagerAction}
    (hr : s.mgr.relays = AList.singleton p 0) (h0 : s.ClosesFirst)
    (h : s.mgrStep a = some s') : s'.ClosesFirst := by
  cases mgrStep_moves h with
  | leaves hp =>
    intro rids he rid hrid
    simp only [goto, withMgr_mgr, hr] at he
    cases he
    exact List.mem_singleton.mp hrid
  | clientIo => exact .of_phase fun rids => by simp only [withMgr_mgr]; split <;> simp
  | takes _ _ _ hp =>
    cases hp with
    | replies hr => exact hr.closesFirst
    | _ => exact .of_phase fun rids => by simp [goto]
  | refuses _ _ hr => exact hr.closesFirst
  | announces _ hr => exact hr.closesFirst
  | destroys _ _ hr => exact hr.closesFirst
  | @drains left =>
    have hdrains := s.mgr.inboundTurn_drains left
    refine .of_phase fun rids => ?_
    generalize s.mgr.inboundTurn left = m at hdrains
    cases hdrains <;> simp
  | @closes rid rids hp =>
    intro rids' he rid' hrid
    simp only [goto, withMgr_mgr] at he
    cases he
    exact h0 _ hp _ (List.mem_cons_of_mem _ hrid)
  | _ => exact .of_phase fun rids => by simp [goto, breakRecv]

namespace System
variable {P : System → Action → Prop} {s : System}

theorem Reachable.closesFirst (h : Reachable P s) : s.server.ClosesFirst := by
  refine Transition.Reach.invariant_of (J := fun s : System => s.server.ClosesFirst)
    (fun _ h => Reachable.models_any h) ?_ ?_ h
  · rintro _ ⟨p, -, -, rfl⟩
    exact .of_phase fun rids => by simp [start]
  · rintro s a s' ⟨p, t, hm⟩ hI - hs
    have hkept (hmgr : s'.server.mgr.phase = s.server.mgr.phase) : s'.server.ClosesFirst :=
      fun rids he => hI rids (hmgr ▸ he)
    cases a with
    | mgr a =>
      exact Server.mgrStep_closesFirst hm.refines.choose_spec.choose_spec.1.relays hI
        (mgrStep_server hs)
    | relay a =>
      obtain ⟨r, puts, -, rfl⟩ := relayStep_cases hs
      exact hkept rfl
    | remote a => exact hkept (by rw [remoteStep_server hs])
    | proxy a =>
      obtain ⟨-, l, puts, -, rfl⟩ := proxyStep_cases hs
      exact hkept rfl
    | serverShutdown | clientShutdown =>
      cases hs
      exact hkept rfl

theorem Reachable.armed (h : Reachable P s) : s.server.mgr.Armed := by
  refine Transition.Reach.invariant (J := fun s => s.server.mgr.Armed) ?_ ?_ h
  · rintro _ ⟨p, -, -, rfl⟩
    exact ⟨rfl, by simp [start]⟩
  · intro s a s' hI _ hs
    cases a with
    | mgr a => exact Server.mgrStep_armed hI (mgrStep_server hs)
    | relay a =>
      obtain ⟨r, puts, -, rfl⟩ := relayStep_cases hs
      exact { hI with }
    | remote a => rwa [remoteStep_server hs]
    | proxy a =>
      obtain ⟨-, l, puts, -, rfl⟩ := proxyStep_cases hs
      exact hI
    | serverShutdown | clientShutdown =>
      cases hs
      exact hI

theorem Reachable.single (h : Reachable P s) :
    s.server.Single s.relay.identifyingPort ∧
      0 < s.relay.identifyingPort ∧ s.relay.identifyingPort < 65536 := by
  obtain ⟨p, t, hm⟩ := Reachable.models_any h
  have hS := hm.refines.choose_spec.choose_spec.1
  rw [hm.port_eq]
  exact ⟨⟨hS.nrelays, hS.relays, Reachable.closesFirst h, hm.peaceful⟩, hm.port⟩

end System
end PortPort
