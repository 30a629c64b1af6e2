import PortPort.Common.RecvLoop
import PortPort.Server.Manager

/-! # What a step of the management thread does

Each branch of `mgrStep` is a case of `MgrMoves`; what the thread keeps is read off these cases. -/

namespace PortPort
open PortPortMessage
open Relay (BindResult)

namespace Manager

/-- A turn of the drain ends it, or sends the frame of the next item. -/
inductive Drains (m : Manager) (left : Nat) : Manager → Prop
  | ends (h : left = 0 ∨ m.closeThread = true ∨ m.inboundData = []) :
      Drains m left { m with phase := .top }
  | sends (hl : 0 < left) (hi : m.inboundData = q :: items)
      (hs : { m with inboundData := items }.send (frameOf q) = .ok m') :
      Drains m left { m' with phase := .inboundLoop (left - 1) }
  | fails (hi : m.inboundData = q :: items)
      (hs : { m with inboundData := items }.send (frameOf q) = .error e) :
      Drains m left { m with inboundData := items, closeThread := true, phase := .top }

variable {m m' : Manager} {msg : PortPortMessage}

theorem addToSendq_eq (m : Manager) (data : Bytes) :
    ∃ writeEnabled mask,
      m.addToSendq data = { m with sendq := m.sendq ++ data, writeEnabled, mask } := by
  unfold Manager.addToSendq
  simp only
  split
  · exact ⟨_, _, rfl⟩
  · exact ⟨_, _, rfl⟩

theorem send_eq (h : m.send msg = .ok m') : ∃ data, data ≠ [] ∧
    m' = { m.addToSendq data with sendLog := m.sendLog ++ [msg] } := by
  unfold Manager.send at h
  split at h
  · cases h
    exact ⟨_, PortPortMessage.serialize_ne_nil ‹_›, rfl⟩
  · cases h

/-- A message sent goes to the end of `sendq`, and write interest is set. -/
theorem send_sent (h : m.send msg = .ok m') : ∃ data writeEnabled mask, data ≠ [] ∧
    m' = { m with
      sendq := m.sendq ++ data, writeEnabled, mask, sendLog := m.sendLog ++ [msg] } := by
  obtain ⟨data, hdata, rfl⟩ := send_eq h
  obtain ⟨writeEnabled, mask, hadd⟩ := m.addToSendq_eq data
  exact ⟨data, writeEnabled, mask, hdata, by rw [hadd]⟩

theorem send_wellFormed (h : WellFormed msg) :
    ∃ m', m.send msg = .ok m' ∧ m'.sendq = m.sendq ++ encode msg ∧ m'.recvq = m.recvq ∧
      m'.relays = m.relays ∧ m'.inboundData = m.inboundData ∧ m'.phase = m.phase := by
  obtain ⟨writeEnabled, mask, hadd⟩ := m.addToSendq_eq (encode msg)
  unfold Manager.send
  rw [h.serialize]
  simp only [hadd]
  exact ⟨_, rfl, rfl, rfl, rfl, rfl, rfl⟩

theorem inboundTurn_drains (m : Manager) (left : Nat) : Drains m left (m.inboundTurn left) := by
  unfold inboundTurn
  split
  · rename_i h
    simp only [Bool.or_eq_true, decide_eq_true_eq] at h
    exact .ends (h.imp_right .inl)
  · rename_i h
    simp only [Bool.or_eq_true, decide_eq_true_eq, not_or] at h
    split
    · exact .ends (.inr (.inr ‹_›))
    · split
      · exact .sends (Nat.pos_of_ne_zero h.1) ‹_› ‹_›
      · exact .fails ‹_› ‹_›

end Manager

namespace Server

/-- Behind a reply or an `except` clause: a frame has been appended to `sendq`, or the receive loop
has been left. -/
inductive Replies (s : Server) : List PortPortMessage → Server → Prop
  | sends (h : s.mgr.send msg = .ok m) (closeThread : Bool) :
      Replies s [msg] (s.withMgr { m with phase := .recvLoop, closeThread })
  | breaks : Replies s [] s.breakRecv

/-- What `process_msg` does with a message before it returns or lets other threads run. -/
inductive Processes (s : Server) (msg : PortPortMessage) (results : List BindResult) :
    Server → Prop
  | creates (ht : msg.msgType = .createRelay) (hr : Relay.init s.portRange results = some (.ok r)) :
      Processes s msg results { s.setRelay s.nrelays r with
        mgr := { s.mgr with
          relays := s.mgr.relays.set r.identifyingPort s.nrelays, phase := .creating s.nrelays }
        nrelays := s.nrelays + 1 }
  | enqueues (hl : s.mgr.relays.lookup msg.relayPort = some rid) (q : QueuedRelayMessage) :
      Processes s msg results ((s.setRelay rid ((s.relay rid).enqueueOutbound q)).goto .recvLoop)
  | joins (hl : s.mgr.relays.lookup msg.relayPort = some rid) :
      Processes s msg results ((s.setRelay rid { s.relay rid with atomicClose := true }).goto
        (.joining msg.relayPort rid))
  | ignores : Processes s msg results (s.goto .recvLoop)
  | replies (h : Replies s fs s') (hfs : ∀ f ∈ fs, f.msgType = .error) : Processes s msg results s'

/-- What a step of the thread does, one case for each branch of `mgrStep`. -/
inductive MgrMoves (s : Server) : ManagerAction → Server → Prop
  | leaves (hp : s.mgr.phase = .top) (hc : (s.closeService || s.mgr.closeThread) = true) :
      MgrMoves s .turn (s.goto (.closing (s.mgr.relays.entries.reverse.map (·.2))))
  | selects (hp : s.mgr.phase = .top)
      (hc : (!s.closeService && !s.mgr.closeThread && s.mgr.selectable events) = true) :
      MgrMoves s (.select events) (s.goto (.dispatch events))
  | clientIo (hp : s.mgr.phase = .dispatch ((.client, mask) :: events))
      (hio : (sendAllowed io.send s.mgr.sendq && recvAllowed io.recv) = true) :
      MgrMoves s (.clientIo io) (s.withMgr { (s.mgr.handleRelayClient mask io).state with
        phase := match (s.mgr.handleRelayClient mask io).raised with
          | none => .dispatch events
          | some e => .crashed e })
  | wakeupRead (hp : s.mgr.phase = .dispatch ((.wakeup, mask) :: events)) (eof : Bool) :
      MgrMoves s (.wakeupRead eof) (s.withMgr { s.mgr with
        phase := .dispatch events, wakeupPending := false
        closeThread := s.mgr.closeThread || eof })
  | dispatched (hp : s.mgr.phase = .dispatch []) : MgrMoves s .turn (s.goto .recvLoop)
  | emptied (hp : s.mgr.phase = .recvLoop) (hq : s.mgr.recvq = []) :
      MgrMoves s (.recvTurn results) s.breakRecv
  | takes (hp : s.mgr.phase = .recvLoop) (hr : results.all s.bindAllowed = true)
      (hgrab : grabMsg s.mgr.recvq = .ok (msg, recvq))
      (h : Processes (s.withMgr { s.mgr with recvq }) msg results s') :
      MgrMoves s (.recvTurn results) s'
  | refuses (hp : s.mgr.phase = .recvLoop) (hgrab : grabMsg s.mgr.recvq = .error e)
      (h : Replies s fs (s.recvExcept e)) (hfs : ∀ f ∈ fs, f.msgType = .error) :
      MgrMoves s (.recvTurn results) (s.recvExcept e)
  | announces (hp : s.mgr.phase = .creating rid) (h : Replies s fs (s.announce rid))
      (hfs : ∀ f ∈ fs, f = { msgType := .openRelay, relayPort := (s.relay rid).identifyingPort } ∨
        f.msgType = .error) : MgrMoves s .turn (s.announce rid)
  | destroys (hp : s.mgr.phase = .joining p rid) (hj : s.joined rid = true)
      (h : Replies (s.withMgr { s.mgr with relays := s.mgr.relays.erase p }) fs (s.destroyed p))
      (hfs : ∀ f ∈ fs, f = { msgType := .destroyRelay, relayPort := p } ∨ f.msgType = .error) :
      MgrMoves s .turn (s.destroyed p)
  | drains (hp : s.mgr.phase = .inboundLoop left) :
      MgrMoves s .turn (s.withMgr (s.mgr.inboundTurn left))
  | closes (hp : s.mgr.phase = .closing (rid :: rids)) :
      MgrMoves s .turn
        ((s.setRelay rid { s.relay rid with atomicClose := true }.wakeup).goto (.closing rids))
  | ends (hp : s.mgr.phase = .closing []) :
      MgrMoves s .turn (s.withMgr { s.mgr with
        phase := .closed, selectorClosed := true, socketClosed := true
        mgmtConnections := s.mgr.mgmtConnections - 1 })

variable {s s' : Server}

theorem wellFormed_error (err : PortPortErrorTypes) :
    WellFormed { msgType := .error, error := err } := ⟨rfl, trivial, rfl, nofun⟩

/-- An `except` clause sends an error and kills the connection, or it breaks out of the loop. -/
theorem recvExcept_cases (s : Server) (e : PyError) :
    (∃ err m, s.mgr.send { msgType := .error, error := err } = .ok m ∧
      s.recvExcept e = s.withMgr { m with phase := .recvLoop, closeThread := true }) ∨
    s.recvExcept e = s.breakRecv ∧ (∀ text, e ≠ .portPortBadVersion text) ∧
      ∀ text, e ≠ .portPortUnsupportedMsgType text := by
  cases e with
  | portPortBadVersion =>
    obtain ⟨m, hm, -⟩ := Manager.send_wellFormed (m := s.mgr) (wellFormed_error .invalidMsgVersion)
    exact .inl ⟨_, m, hm, by simp only [recvExcept, hm]⟩
  | portPortUnsupportedMsgType =>
    obtain ⟨m, hm, -⟩ := Manager.send_wellFormed (m := s.mgr) (wellFormed_error .unknownMsgType)
    exact .inl ⟨_, m, hm, by simp only [recvExcept, hm]⟩
  | _ => exact .inr ⟨rfl, by simp, by simp⟩

/-- An `except` clause sends nothing but an error. -/
theorem recvExcept_replies (s : Server) (e : PyError) :
    ∃ fs, Replies s fs (s.recvExcept e) ∧ ∀ f ∈ fs, f.msgType = .error := by
  rcases recvExcept_cases s e with ⟨err, m, hm, h⟩ | ⟨h, -⟩
  · rw [h]
    exact ⟨_, .sends hm true, fun f hf => List.mem_singleton.mp hf ▸ rfl⟩
  · rw [h]
    exact ⟨[], .breaks, List.forall_mem_nil _⟩

theorem reply_replies (s : Server) (msg : PortPortMessage) :
    ∃ fs, Replies s fs (s.reply msg) ∧ ∀ f ∈ fs, f = msg ∨ f.msgType = .error := by
  unfold reply
  split
  · exact ⟨_, .sends ‹_› _, fun f hf => .inl (List.mem_singleton.mp hf)⟩
  · obtain ⟨fs, h, hfs⟩ := recvExcept_replies s ‹_›
    exact ⟨fs, h, fun f hf => .inr (hfs f hf)⟩

theorem announce_replies (s : Server) (rid : Nat) :
    ∃ fs, Replies s fs (s.announce rid) ∧ ∀ f ∈ fs,
      f = { msgType := .openRelay, relayPort := (s.relay rid).identifyingPort } ∨
        f.msgType = .error := by
  unfold announce Relay.getPort
  split
  · rename_i hport
    split at hport
    · cases hport
    · cases hport
      exact reply_replies ..
  · obtain ⟨fs, h, hfs⟩ := recvExcept_replies s ‹_›
    exact ⟨fs, h, fun f hf => .inr (hfs f hf)⟩

theorem processMsg_processes {msg : PortPortMessage} {results : List BindResult}
    (h : s.processMsg msg results = some s') : Processes s msg results s' := by
  have hexcept (e : PyError) : Processes s msg results (s.recvExcept e) := by
    obtain ⟨fs, hreplies, hfs⟩ := recvExcept_replies s e
    exact .replies hreplies hfs
  have herror (err : PortPortErrorTypes) :
      Processes s msg results (s.reply { msgType := .error, error := err }) := by
    obtain ⟨fs, hreplies, hfs⟩ := reply_replies s { msgType := .error, error := err }
    exact .replies hreplies fun f hf => (hfs f hf).elim (fun he => he ▸ rfl) id
  unfold processMsg at h
  split at h
  · split at h <;> cases h
    · exact .creates ‹_› ‹_›
    · exact herror _
    · exact hexcept _
  · split at h <;> cases h
    · exact .enqueues ‹_› _
    · exact hexcept _
  · split at h <;> cases h
    · exact .joins ‹_›
    · exact .ignores
  · split at h <;> cases h
    · exact .enqueues ‹_› _
    · exact herror _
  · cases h
    exact .ignores

theorem mgrStep_moves {a : ManagerAction} (h : s.mgrStep a = some s') : MgrMoves s a s' := by
  unfold mgrStep at h
  split at h
  · rename_i hp
    simp only [Option.ite_none_right_eq_some, Option.some.injEq] at h
    obtain ⟨hc, rfl⟩ := h
    exact .leaves hp hc
  · rename_i hp
    simp only [Option.ite_none_right_eq_some, Option.some.injEq] at h
    obtain ⟨hc, rfl⟩ := h
    exact .selects hp hc
  · rename_i hp
    simp only [Option.ite_none_right_eq_some, Option.some.injEq] at h
    obtain ⟨hio, rfl⟩ := h
    exact .clientIo hp hio
  · cases h
    exact .wakeupRead ‹_› _
  · cases h
    exact .dispatched ‹_›
  · rename_i hp
    simp only [Option.ite_none_right_eq_some] at h
    obtain ⟨hr, h⟩ := h
    unfold recvTurn at h
    split at h
    · cases h
      exact .emptied hp ‹_›
    split at h
    · exact .takes hp hr ‹_› (processMsg_processes h)
    · cases h
      obtain ⟨fs, hreplies, hfs⟩ := recvExcept_replies s ‹_›
      exact .refuses hp ‹_› hreplies hfs
  · cases h
    obtain ⟨fs, hreplies, hfs⟩ := announce_replies s ‹_›
    exact .announces ‹_› hreplies hfs
  · rename_i hp
    simp only [Option.ite_none_right_eq_some, Option.some.injEq] at h
    obtain ⟨hj, rfl⟩ := h
    obtain ⟨fs, hreplies, hfs⟩ := reply_replies (s.withMgr { s.mgr with relays := _ }) _
    exact .destroys hp hj hreplies hfs
  · cases h
    exact .drains ‹_›
  · cases h
    exact .closes ‹_›
  · cases h
    exact .ends ‹_›
  · cases h

theorem mgrStep_recvTurn {results : List BindResult}
    (h : s.mgrStep (.recvTurn results) = some s') :
    s.mgr.phase = .recvLoop ∧ results.all s.bindAllowed = true ∧
      s.recvTurn results = some s' := by
  cases mgrStep_moves h with
  | emptied hp | takes hp | refuses hp =>
    simp only [mgrStep, hp, Option.ite_none_right_eq_some] at h
    exact ⟨hp, h⟩

/-! ## Replies -/

/-- Behind a reply or an `except` clause: only the bytes to be sent, the flag that ends the thread
and its place in the loop may differ. -/
structure Replied (s s' : Server) : Prop where
  relay : s'.relay = s.relay
  nrelays : s'.nrelays = s.nrelays
  relays : s'.mgr.relays = s.mgr.relays
  recvq : s'.mgr.recvq = s.mgr.recvq
  socketClosed : s'.mgr.socketClosed = s.mgr.socketClosed
  mgmtConnections : s'.mgr.mgmtConnections = s.mgr.mgmtConnections
  phase : s'.mgr.phase = .recvLoop ∨ s'.mgr.phase = .inboundLoop INBOUND_BATCH

theorem Replies.replied {fs : List PortPortMessage} (h : Replies s fs s') : Replied s s' := by
  cases h with
  | sends h closeThread =>
    obtain ⟨data, writeEnabled, mask, -, rfl⟩ := Manager.send_sent h
    exact ⟨rfl, rfl, rfl, rfl, rfl, rfl, .inl rfl⟩
  | breaks => exact ⟨rfl, rfl, rfl, rfl, rfl, rfl, .inr rfl⟩

theorem Replies.sendLog {fs : List PortPortMessage} (h : Replies s fs s') :
    s'.mgr.sendLog = s.mgr.sendLog ++ fs := by
  cases h with
  | sends h closeThread =>
    obtain ⟨data, writeEnabled, mask, -, rfl⟩ := Manager.send_sent h
    rfl
  | breaks => exact (List.append_nil _).symm

theorem Replies.inboundData {fs : List PortPortMessage} (h : Replies s fs s') :
    s'.mgr.inboundData = s.mgr.inboundData := by
  cases h with
  | sends h closeThread =>
    obtain ⟨data, writeEnabled, mask, -, rfl⟩ := Manager.send_sent h
    rfl
  | breaks => rfl

theorem Replies.enqueued {fs : List PortPortMessage} (h : Replies s fs s') :
    s'.enqueued = s.enqueued := by
  cases h with
  | sends => rfl
  | breaks => rfl

theorem recvExcept_replied (s : Server) (e : PyError) : Replied s (s.recvExcept e) := by
  obtain ⟨fs, h, -⟩ := recvExcept_replies s e
  exact h.replied

theorem reply_replied (s : Server) (msg : PortPortMessage) : Replied s (s.reply msg) := by
  obtain ⟨fs, h, -⟩ := reply_replies s msg
  exact h.replied

theorem announce_replied (s : Server) (rid : Nat) : Replied s (s.announce rid) := by
  obtain ⟨fs, h, -⟩ := announce_replies s rid
  exact h.replied

theorem reply_sends {msg : PortPortMessage} (h : WellFormed msg) :
    (s.reply msg).mgr.sendLog = s.mgr.sendLog ++ [msg] := by
  obtain ⟨m, hm, -⟩ := Manager.send_wellFormed (m := s.mgr) h
  unfold reply
  rw [hm]
  exact (Replies.sends hm m.closeThread).sendLog

/-! ## The relays -/

/-- The thread has done no more to the relays it had than to put an item on a queue, ask for a
close, or wake one up. -/
def RelaysKept (s s' : Server) : Prop :=
  s.nrelays ≤ s'.nrelays ∧ ∀ rid < s.nrelays, ∃ outbound atomicClose wakeupPending woken,
    s'.relay rid = { s.relay rid with outbound, atomicClose, wakeupPending, woken }

theorem RelaysKept.of_relay {s s' : Server} (hn : s.nrelays ≤ s'.nrelays)
    (h : ∀ rid < s.nrelays, s'.relay rid = s.relay rid) : RelaysKept s s' :=
  ⟨hn, fun rid hr => ⟨_, _, _, _, h rid hr⟩⟩

theorem RelaysKept.of_eq {s s' : Server} (hn : s'.nrelays = s.nrelays) (h : s'.relay = s.relay) :
    RelaysKept s s' := .of_relay (Nat.le_of_eq hn.symm) fun rid _ => congrFun h rid

theorem RelaysKept.setRelay {s s' : Server} {rid : Nat} {outbound : List QueuedRelayMessage}
    {atomicClose wakeupPending woken : Bool} (hn : s'.nrelays = s.nrelays)
    (h : s'.relay = Function.update s.relay rid
      { s.relay rid with outbound, atomicClose, wakeupPending, woken }) : RelaysKept s s' := by
  refine ⟨Nat.le_of_eq hn.symm, fun i _ => ?_⟩
  by_cases hi : i = rid
  · subst hi
    exact ⟨outbound, atomicClose, wakeupPending, woken, by rw [h, Function.update_self]⟩
  · exact ⟨_, _, _, _, by rw [h, Function.update_of_ne hi]⟩

theorem Replied.relaysKept (h : Replied s s') : RelaysKept s s' := .of_eq h.nrelays h.relay

theorem mgrStep_relaysKept {a : ManagerAction} (h : s.mgrStep a = some s') : RelaysKept s s' := by
  cases mgrStep_moves h with
  | takes _ _ _ hp =>
    cases hp with
    | creates =>
      exact .of_relay (Nat.le_succ _) fun rid hr => Function.update_of_ne (Nat.ne_of_lt hr) ..
    | enqueues => exact .setRelay rfl rfl
    | joins => exact .setRelay rfl rfl
    | ignores => exact .of_eq rfl rfl
    | replies hr => exact hr.replied.relaysKept
  | refuses _ _ hr => exact hr.replied.relaysKept
  | announces _ hr => exact hr.replied.relaysKept
  | destroys _ _ hr => exact hr.replied.relaysKept
  | closes => exact .setRelay rfl rfl
  | _ => exact .of_eq rfl rfl

end Server
end PortPort
