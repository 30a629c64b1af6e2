import PortPort.Client.ThreadsEnd
import PortPort.Server.RelayEnds
import PortPort.System.Delivery

/-! # What is delivered is handled

An item that the management connection has carried waits in the queue of the relay or in that of the
local proxy. Either thread takes items off its queue again and again as long as it runs, so
everything that either of them reports is handled by the other. -/

namespace PortPort
open Transition

/-! ## The local proxy -/

namespace LocalProxy
variable {l l' : LocalProxy}

theorem unregister_toLocal (l : LocalProxy) (n : Nat) :
    (l.unregister n).state.toLocal = l.toLocal := by
  unfold unregister
  split
  · rfl
  · rfl

theorem modify_toLocal (l : LocalProxy) (n : Nat) (events : Mask) :
    (l.modify n events).state.toLocal = l.toLocal := by
  unfold modify
  split
  · rfl
  · split
    · rfl
    · rfl

theorem cleanupSocket_toLocal (l : LocalProxy) (address : Peer) :
    (l.cleanupSocket address).state.toLocal = l.toLocal := by
  unfold cleanupSocket
  split
  · rfl
  · simp only
    split
    · exact unregister_toLocal ..
    · exact unregister_toLocal ..

theorem newConnection_toLocal (l : LocalProxy) (n : Nat) (m : QueuedRelayMessage) (io : ConnectIO) :
    (l.newConnection n m io).state.toLocal = l.toLocal := by
  have hregister (l : LocalProxy) : (l.register n .r).state.toLocal = l.toLocal := by
    unfold register
    simp only
    split
    · rfl
    · rfl
  unfold newConnection
  split
  · unfold enterConnection
    simp only
    split
    · exact hregister _
    · exact hregister _
    · rw [cleanupSocket_toLocal]
      exact hregister _
    · exact hregister _
  · rfl

/-- Handling an item leaves the queue as it is. -/
theorem handleItem_toLocal (l : LocalProxy) (n : Nat) (m : QueuedRelayMessage) (io : ConnectIO) :
    (l.handleItem n m io).state.toLocal = l.toLocal := by
  unfold handleItem
  split
  · exact newConnection_toLocal ..
  · unfold message
    split
    · rfl
    · simp only
      split
      · rfl
      · exact modify_toLocal ..
  · exact cleanupSocket_toLocal ..

/-- Behind an item the rest of the queue is left. -/
theorem after_item_toLocal (l : LocalProxy) (n left : Nat) (m : QueuedRelayMessage)
    (rest : List QueuedRelayMessage) (io : ConnectIO) :
    (after ({ l with toLocal := rest }.handleItem n m io) (.batch left)).toLocal = rest :=
  handleItem_toLocal { l with toLocal := rest } n m io

theorem handleWrite_toLocal (l : LocalProxy) (n : Nat) (send : Except OSError Nat) :
    (l.handleWrite n send).state.toLocal = l.toLocal := by
  unfold handleWrite
  simp only
  split
  · split
    · split
      · exact modify_toLocal ..
      · exact modify_toLocal ..
    · rfl
  · rfl
  · rfl
  · rfl
  · rfl

theorem handleIoEvent_toLocal (l : LocalProxy) (n : Nat) (mask : Mask) (io : ConnIO) :
    (l.handleIoEvent n mask io).state.toLocal = l.toLocal := by
  have hwrite (l : LocalProxy) : (if mask.write && (l.conns n).sendq ≠ [] then
      l.handleWrite n io.send else { state := l } : Outcome LocalProxy).state.toLocal =
        l.toLocal := by
    split
    · exact handleWrite_toLocal ..
    · rfl
  unfold handleIoEvent
  simp only
  split
  · split
    · split
      · rfl
      · exact hwrite _
    · rfl
    · rfl
    · exact hwrite _
    · rfl
  · exact hwrite _

/-- How far the thread is from taking an item off its queue. -/
def toItem (l : LocalProxy) : ℕ ×ₗ ℕ :=
  match l.phase with
  | .batch 0 => toLex (1, 1)
  | .select => toLex (1, 0)
  | .dispatch events => toLex (0, events.length + 2)
  | .top => toLex (0, 1)
  | _ => toLex (0, 0)

/-- Each step of the thread leaves the queue as it is, or it takes the first item off. -/
theorem step_takes {close : Bool} {a : LocalAction} {puts : List (Nat × QueuedRelayMessage)}
    (h : l.step close a = some (l', puts)) :
    l'.toLocal = l.toLocal ∨ ∃ m, l.toLocal = m :: l'.toLocal := by
  cases step_moves h with
  | @item _ m _ _ _ _ ht =>
    exact .inr ⟨m, by rw [ht, after_item_toLocal]⟩
  | io => exact .inl (handleIoEvent_toLocal ..)
  | drops | dropFails => exact .inl (cleanupSocket_toLocal ..)
  | _ => exact .inl rfl

/-- A step of a thread that goes on brings it nearer to the items of its queue. -/
theorem step_toItem {a : LocalAction} {puts : List (Nat × QueuedRelayMessage)}
    (h : l.step false a = some (l', puts)) (hp : l.phase.serving = true) (hq : l.toLocal ≠ [])
    (he : ∀ e, l'.phase ≠ .crashed e) :
    (∃ m, l.toLocal = m :: l'.toLocal) ∨ l'.toItem < l.toItem := by
  cases step_moves h with
  | begins hph | bounded hph | selects hph | wakeupRead hph | dispatched hph =>
    refine .inr ?_
    simp [toItem, hph, BOUNDED_BATCH, Prod.Lex.toLex_lt_toLex]
  | emptied _ ht => exact absurd ht hq
  | @item _ m _ _ _ _ ht =>
    exact .inl ⟨m, by rw [ht, after_item_toLocal]⟩
  | @io n mask events io hph =>
    refine .inr ?_
    cases hr : (l.handleIoEvent n mask io).raised with
    | none => simp [toItem, after, hph, hr, Prod.Lex.toLex_lt_toLex]
    | some e => exact absurd (by simp [after, hr]) (he e)
  | drops hph | dropFails hph | ends hph =>
    rw [hph] at hp
    cases hp

end LocalProxy

/-! ## The relay -/

namespace Relay
variable {r r' : Relay}

/-- How far the thread is from taking a message off its queue. -/
def toItem (r : Relay) : ℕ ×ₗ ℕ :=
  match r.phase with
  | .start => toLex (2, 0)
  | .top => toLex (1, 0)
  | .dispatch events => toLex (0, events.length + 1)
  | _ => toLex (0, 0)

/-- Behind a message the rest of the queue is left. -/
theorem afterOutbound_outbound (r : Relay) (m : QueuedRelayMessage)
    (rest : List QueuedRelayMessage) :
    (afterOutbound ({ r with outbound := rest }.handleOutbound m)).outbound = rest :=
  ((handleOutbound_serves { r with outbound := rest } m).afterOutbound (a := .turn)).2

/-- Each step of the thread leaves the queue as it is, or it takes the first message off. -/
theorem step_takes {closeReq : Bool} {a : RelayAction} {puts : List (Nat × QueuedRelayMessage)}
    (h : r.step closeReq a = some (r', puts)) :
    r'.outbound = r.outbound ∨ ∃ m, r.outbound = m :: r'.outbound := by
  cases step_moves h with
  | accepts => exact .inl (Serves.afterCallback (a := .turn) ⟨_, _, _, _, _, rfl⟩).2
  | io => exact .inl ((handleSocket_serves ..).afterCallback (a := .turn)).2
  | @handles m _ _ _ ho =>
    exact .inr ⟨m, by rw [ho, afterOutbound_outbound]⟩
  | @cleansUp addr =>
    obtain ⟨_, _, _, _, _, hout⟩ := cleanUpConnection_serves r addr
    rw [hout]
    split
    · exact .inl rfl
    · exact .inl rfl
  | _ => exact .inl rfl

/-- A step of a thread that goes on brings it nearer to the messages of its queue. -/
theorem step_toItem {a : RelayAction} {puts : List (Nat × QueuedRelayMessage)}
    (h : r.step false a = some (r', puts)) (hopen : r.atomicClose = false)
    (hp : r.phase.serving = true) (hq : r.outbound ≠ []) (he : ∀ e, r'.phase ≠ .crashed e) :
    (∃ m, r.outbound = m :: r'.outbound) ∨ r'.toItem < r.toItem := by
  have hcallback {key : RelayKey} {mask : Mask} {out : Outcome Relay}
      {events : List (RelayKey × Mask)} (hph : r.phase = .dispatch ((key, mask) :: events))
      (he : ∀ e, (afterCallback out events).phase ≠ .crashed e) :
      (afterCallback out events).toItem < r.toItem := by
    cases hr : out.raised with
    | none => simp [toItem, afterCallback, hph, hr, Prod.Lex.toLex_lt_toLex]
    | some e => exact absurd (by simp [afterCallback, hr]) (he e)
  cases step_moves h with
  | listens hph | selects hph | wakeupRead hph | dispatched hph =>
    refine .inr ?_
    simp [toItem, hph, Prod.Lex.toLex_lt_toLex]
  | listenFails | acceptFails => exact absurd rfl (he _)
  | leaves _ hc => simp [hopen] at hc
  | accepts hph | io hph => exact .inr (hcallback hph he)
  | drained _ hc => simp [hopen, hq] at hc
  | @handles m _ _ _ ho =>
    exact .inl ⟨m, by rw [ho, afterOutbound_outbound]⟩
  | cleansUp hph | closes hph =>
    rw [hph] at hp
    cases hp

end Relay

/-! ## The queues over time -/

/-- The management thread only puts messages on the queue of a relay. -/
theorem Server.mgrStep_outbound {s s' : Server} {a : ManagerAction} {rid : Nat}
    (hrid : rid < s.nrelays) (h : s.mgrStep a = some s') :
    ∃ qs, (s'.relay rid).outbound = (s.relay rid).outbound ++ qs := by
  have hsame {s' : Server} (hr : s'.relay rid = s.relay rid) :
      ∃ qs, (s'.relay rid).outbound = (s.relay rid).outbound ++ qs :=
    ⟨[], by rw [hr, List.append_nil]⟩
  have hupdate {s' : Server} {i : Nat} {r : Relay} (hr : s'.relay = Function.update s.relay i r)
      (ho : ∃ qs, r.outbound = (s.relay i).outbound ++ qs) :
      ∃ qs, (s'.relay rid).outbound = (s.relay rid).outbound ++ qs := by
    by_cases hi : rid = i
    · subst hi
      rw [hr, Function.update_self]
      exact ho
    · exact hsame (by rw [hr, Function.update_of_ne hi])
  cases mgrStep_moves h with
  | takes _ _ _ hmsg =>
    cases hmsg with
    | creates => exact hsame (Function.update_of_ne (Nat.ne_of_lt hrid) ..)
    | enqueues _ q => exact hupdate rfl ⟨[q], rfl⟩
    | joins => exact hupdate rfl ⟨[], (List.append_nil _).symm⟩
    | ignores => exact hsame rfl
    | replies hr => exact hsame (congrFun hr.replied.relay rid)
  | refuses _ _ hr => exact hsame (congrFun hr.replied.relay rid)
  | announces _ hr => exact hsame (congrFun hr.replied.relay rid)
  | destroys _ _ hr => exact hsame (congrFun hr.replied.relay rid)
  | closes => exact hupdate rfl ⟨[], (List.append_nil _).symm⟩
  | _ => exact hsame rfl

/-- The remote proxy thread only puts items on the queue of the local proxy. -/
theorem Client.remoteStep_toLocal {c c' : Client} {a : RemoteAction}
    (h : c.remoteStep a = some c') : ∃ qs, c'.proxy.toLocal = c.proxy.toLocal ++ qs := by
  cases remoteStep_moves h with
  | takes =>
    unfold processMsg
    split
    · exact ⟨_, rfl⟩
    · split
      · exact ⟨[], (List.append_nil _).symm⟩
      · exact ⟨[], (List.append_nil _).symm⟩
  | _ => exact ⟨[], (List.append_nil _).symm⟩

namespace System
variable {s s' : System}

/-- What is no longer at the front of a queue. -/
def removed (q q' : List QueuedRelayMessage) : List QueuedRelayMessage :=
  q.take (q.length - q'.length)

/-- The items that a step takes off the queue of the local proxy, and the messages that it takes
off that of the relay. -/
def downTake (s : System) (a : Action) (s' : System) : List QueuedRelayMessage :=
  match a with
  | .proxy _ => removed s.proxy.toLocal s'.proxy.toLocal
  | _ => []

def upTake (s : System) (a : Action) (s' : System) : List QueuedRelayMessage :=
  match a with
  | .relay _ => removed s.relay.outbound s'.relay.outbound
  | _ => []

theorem removed_append {q q' : List QueuedRelayMessage} (h : q' = q ∨ ∃ m, q = m :: q') :
    q = removed q q' ++ q' := by
  rcases h with rfl | ⟨m, rfl⟩
  · simp [removed]
  · simp [removed]

theorem append_added {q q' : List QueuedRelayMessage} (h : ∃ qs, q' = q ++ qs) :
    q ++ added q q' = q' := by
  obtain ⟨qs, rfl⟩ := h
  rw [added_append]

theorem step_downQueue {a : Action} (hs : step s a = some s') :
    s.proxy.toLocal ++ s.downHand a s' = s.downTake a s' ++ s'.proxy.toLocal := by
  have hsame (hp : s'.proxy = s.proxy) : s.proxy.toLocal ++ [] = [] ++ s'.proxy.toLocal := by
    rw [hp, List.append_nil, List.nil_append]
  cases a with
  | mgr a => exact hsame (congrArg Client.proxy (mgrStep_client hs))
  | relay a =>
    obtain ⟨r, puts, -, rfl⟩ := relayStep_cases hs
    exact hsame rfl
  | remote a => exact append_added (Client.remoteStep_toLocal (remoteStep_client hs))
  | proxy a =>
    obtain ⟨-, l, puts, hl, rfl⟩ := proxyStep_cases hs
    exact (List.append_nil _).trans (removed_append (LocalProxy.step_takes hl))
  | serverShutdown | clientShutdown =>
    cases hs
    exact hsame rfl

theorem step_upQueue {a : Action} (hn : 0 < s.server.nrelays) (hs : step s a = some s') :
    s.relay.outbound ++ s.upHand a s' = s.upTake a s' ++ s'.relay.outbound := by
  have hsame (hr : s'.relay = s.relay) : s.relay.outbound ++ [] = [] ++ s'.relay.outbound := by
    rw [hr, List.append_nil, List.nil_append]
  cases a with
  | mgr a => exact append_added (Server.mgrStep_outbound hn (mgrStep_server hs))
  | relay a =>
    obtain ⟨r, puts, hr, rfl⟩ := relayStep_cases hs
    have hrelay : (s.server.relayMoved 0 r puts).relay 0 = r := by simp
    simp only [upHand, upTake, relay, hrelay, List.append_nil]
    exact removed_append (Relay.step_takes hr)
  | remote a => exact hsame (congrArg (Server.relay · 0) (remoteStep_server hs))
  | proxy a =>
    obtain ⟨-, l, puts, -, rfl⟩ := proxyStep_cases hs
    exact hsame rfl
  | serverShutdown | clientShutdown =>
    cases hs
    exact hsame rfl

/-! ## The two threads run -/

def Action.OfRelay (a : Action) : Prop := ∃ b, a = .relay b
def Action.OfProxy (a : Action) : Prop := ∃ b, a = .proxy b

theorem other_relay {a : Action} (hn : 0 < s.server.nrelays) (ha : ¬ a.OfRelay)
    (h : step s a = some s') : s'.relay.phase = s.relay.phase := by
  cases a with
  | mgr a =>
    obtain ⟨-, hk⟩ := Server.mgrStep_relaysKept (mgrStep_server h)
    obtain ⟨_, _, _, _, hr⟩ := hk 0 hn
    rw [relay, relay, hr]
  | relay a => exact absurd ⟨a, rfl⟩ ha
  | remote a => rw [relay, relay, remoteStep_server h]
  | proxy a =>
    obtain ⟨-, l, puts, -, rfl⟩ := proxyStep_cases h
    rfl
  | serverShutdown | clientShutdown =>
    cases h
    rfl

theorem other_proxy {a : Action} (ha : ¬ a.OfProxy) (h : step s a = some s') :
    s'.proxy.phase = s.proxy.phase := by
  cases a with
  | mgr a => rw [proxy, proxy, mgrStep_client h]
  | relay a =>
    obtain ⟨r, puts, -, rfl⟩ := relayStep_cases h
    rfl
  | remote a =>
    obtain ⟨_, _, hp⟩ := remoteStep_proxy h
    rw [hp]
  | proxy a => exact absurd ⟨a, rfl⟩ ha
  | serverShutdown | clientShutdown =>
    cases h
    rfl

theorem Session.nrelays (h : s.Session) : 0 < s.server.nrelays := by
  obtain ⟨p, t, hm⟩ := Reachable.models_any h
  obtain ⟨fd, qs, hS, -⟩ := hm.refines
  exact hS.nrelays ▸ Nat.one_pos

/-- In a session only an exception ends the thread of the relay. -/
theorem relay_enabled (h : s.Session) (he : ∀ e, s.relay.phase ≠ .crashed e) :
    Enabled (Fires step) Action.OfRelay s := by
  have hserving := (Reachable.up h).relay
  have htogo : (s.server.relay 0).togo ≠ 0 := by
    change s.relay.togo ≠ 0
    cases hp : s.relay.phase with
    | closing | closed =>
      rw [hp] at hserving
      cases hserving
    | crashed e => exact absurd hp (he e)
    | _ => simp [Relay.togo, hp]
  obtain ⟨a, x, hx⟩ := Server.exists_relayStep (Session.nrelays h) htogo
  exact ⟨.relay a, _, ⟨a, rfl⟩, Option.map_eq_some_iff.mpr ⟨x, hx, rfl⟩⟩

/-- The item that the local proxy comes to next may be taken. -/
theorem exists_item (h : s.Session) {q : QueuedRelayMessage} {rest : List QueuedRelayMessage}
    (hp : ∀ e, s.proxy.phase ≠ .crashed e) (hq : s.proxy.toLocal = q :: rest) :
    ∃ n io, s.downTags.head? = some n ∧
      ¬ (q.kind = .newConnection ∧ !s.proxy.socketAllowed n io) := by
  obtain ⟨p, t, hm⟩ := Reachable.models_any h
  obtain ⟨fd, qs, -, hC, hD, -⟩ := hm.refines
  have hcar := hD.carries
  have hpend : s.proxy.pending = s.proxy.toLocal := hC.ok.pending_eq hp
  rw [downItems, hpend, hq, List.cons_append, List.cons_append] at hcar
  obtain ⟨n, tags, l, htags, hdown, -⟩ := hcar.cons
  obtain ⟨_, fd, -, hfree⟩ := s.proxy.exists_fresh
  refine ⟨n, { socket := .ok fd, connect := .ok () }, by rw [htags]; rfl, fun hnew => ?_⟩
  obtain ⟨hk, hnot⟩ := hnew
  have hopened : t.down = (n, .opened q.peer) :: l := by simpa [tagged, msgOf, hk] using hdown
  have hfresh : n ∉ s.proxy.created :=
    hC.far.fresh ((Tunnel.Reachable.numbered hm.reachable).next hopened).1
  rw [(LocalProxy.socketAllowed_ok rfl).mpr ⟨hfresh, hfree⟩] at hnot
  cases hnot

/-- In a session only an exception ends the thread of the local proxy. -/
theorem proxy_enabled (h : s.Session) (he : ∀ e, s.proxy.phase ≠ .crashed e) :
    Enabled (Fires step) Action.OfProxy s := by
  have hserving := (Reachable.up h).proxy
  have hended : s.proxy.ended = false := by
    cases hp : s.proxy.phase with
    | closing | done =>
      rw [hp] at hserving
      cases hserving
    | crashed e => exact absurd hp (he e)
    | _ => simp [LocalProxy.ended, hp]
  have hfires {a : LocalProxy.LocalAction} (htag : s.tagAllowed a = true)
      (hl : (s.proxy.step s.client.close a).isSome) : Enabled (Fires step) Action.OfProxy s := by
    obtain ⟨x, hx⟩ := Option.isSome_iff_exists.mp hl
    have hclient : s.client.proxyStep a = some (s.client.proxyMoved x.1 x.2, x.2) :=
      Option.map_eq_some_iff.mpr ⟨x, hx, rfl⟩
    obtain ⟨t, ht⟩ : ∃ t, s.proxyStep a = some t := by
      rw [proxyStep, if_pos htag, hclient]
      exact ⟨_, rfl⟩
    exact ⟨.proxy a, t, ⟨a, rfl⟩, ht⟩
  obtain ⟨a, ha⟩ := LocalProxy.exists_step hended s.client.close
  cases a with
  | item k io =>
    obtain ⟨x, hx⟩ := Option.isSome_iff_exists.mp ha
    obtain ⟨left, q, rest, hp, hq, -⟩ := LocalProxy.step_item hx
    obtain ⟨n, io, htag, hfree⟩ := exists_item h he hq
    refine hfires (a := .item n io) (by simp [tagAllowed, htag]) ?_
    simp only [LocalProxy.step, hp, hq, if_neg hfree, Option.isSome_some]
  | _ => exact hfires rfl ha

/-! ## Runs -/

theorem proxyStep_proxy {a : LocalProxy.LocalAction} (h : s.proxyStep a = some s') :
    ∃ puts, s.proxy.step s.client.close a = some (s'.proxy, puts) := by
  obtain ⟨-, l, puts, hl, rfl⟩ := proxyStep_cases h
  exact ⟨puts, hl⟩

theorem relayStep_relay {a : Relay.RelayAction} (h : s.relayStep a = some s') :
    ∃ puts, s.relay.step s.server.closeService a = some (s'.relay, puts) := by
  obtain ⟨r, puts, hr, rfl⟩ := relayStep_cases h
  exact ⟨puts, by simpa [relay] using hr⟩

theorem removed_ne_nil {q q' : List QueuedRelayMessage} (h : ∃ m, q = m :: q') :
    removed q q' ≠ [] := by
  obtain ⟨m, rfl⟩ := h
  simp [removed]

/-- What either thread has taken off its queue before step `i` of a run. -/
def handledDown (ρ : Run (Fires step)) : ℕ → List QueuedRelayMessage :=
  Chan.before fun i => (ρ.state i).downTake (ρ.act i) (ρ.state (i + 1))

def handledUp (ρ : Run (Fires step)) : ℕ → List QueuedRelayMessage :=
  Chan.before fun i => (ρ.state i).upTake (ρ.act i) (ρ.state (i + 1))

variable {ρ : Run (Fires step)}

def downQueue (h : Quiet ρ) : Chan.Queue QueuedRelayMessage where
  items i := (ρ.state i).proxy.toLocal
  put i := (ρ.state i).downHand (ρ.act i) (ρ.state (i + 1))
  take i := (ρ.state i).downTake (ρ.act i) (ρ.state (i + 1))
  empty := by
    obtain ⟨p, -, -, hstart⟩ := h.init
    rw [hstart]
    rfl
  moves i := step_downQueue (ρ.moves i)

def upQueue (h : Quiet ρ) : Chan.Queue QueuedRelayMessage where
  items i := (ρ.state i).relay.outbound
  put i := (ρ.state i).upHand (ρ.act i) (ρ.state (i + 1))
  take i := (ρ.state i).upTake (ρ.act i) (ρ.state (i + 1))
  empty := by
    obtain ⟨p, -, -, hstart⟩ := h.init
    rw [hstart]
    rfl
  moves i := step_upQueue (Session.nrelays (h.session i)) (ρ.moves i)

/-- The thread of the local proxy takes everything off its queue. -/
theorem downQueue_drains (h : Quiet ρ) (hfair : ρ.Fair Action.OfProxy) {i : ℕ}
    (halive : ∀ j ≥ i, ∀ e, (ρ.state j).proxy.phase ≠ .crashed e) :
    ∃ j ≥ i, gotDown ρ i <+: handledDown ρ j := by
  refine (downQueue h).drains_of_fair hfair (fun s => s.proxy.toItem)
    (fun j hj => proxy_enabled (h.session j) (halive j hj)) (fun j hj hq ⟨b, hb⟩ => ?_)
    fun j _ hb => ?_
  · have hup := Reachable.up (h.session j)
    have hmoves := ρ.moves j
    rw [hb] at hmoves
    obtain ⟨puts, hl⟩ := proxyStep_proxy hmoves
    rw [hup.close] at hl
    have hnext := LocalProxy.step_toItem hl hup.proxy hq (halive (j + 1) (Nat.le_succ_of_le hj))
    refine hnext.imp_left fun htake => ?_
    simp only [downQueue, downTake, hb]
    exact removed_ne_nil htake
  · simp only [LocalProxy.toItem, other_proxy hb (ρ.moves j)]

/-- The thread of the relay takes everything off its queue. -/
theorem upQueue_drains (h : Quiet ρ) (hfair : ρ.Fair Action.OfRelay) {i : ℕ}
    (halive : ∀ j ≥ i, ∀ e, (ρ.state j).relay.phase ≠ .crashed e) :
    ∃ j ≥ i, gotUp ρ i <+: handledUp ρ j := by
  refine (upQueue h).drains_of_fair hfair (fun s => s.relay.toItem)
    (fun j hj => relay_enabled (h.session j) (halive j hj)) (fun j hj hq ⟨b, hb⟩ => ?_)
    fun j _ hb => ?_
  · have hup := Reachable.up (h.session j)
    have hmoves := ρ.moves j
    rw [hb] at hmoves
    obtain ⟨puts, hr⟩ := relayStep_relay hmoves
    rw [hup.closeService] at hr
    have hnext := Relay.step_toItem hr hup.atomicClose hup.relay hq
      (halive (j + 1) (Nat.le_succ_of_le hj))
    refine hnext.imp_left fun htake => ?_
    simp only [upQueue, upTake, hb]
    exact removed_ne_nil htake
  · simp only [Relay.toItem, other_relay (Session.nrelays (h.session j)) hb (ρ.moves j)]

/-- What is reported to the local proxy is handled as long as its thread lives. -/
theorem sentDown_handled (h : Quiet ρ) (hw : Working ρ) (hproxy : ρ.Fair Action.OfProxy) {i : ℕ}
    (halive : ∀ j ≥ i, ∀ e, (ρ.state j).proxy.phase ≠ .crashed e) :
    ∃ j ≥ i, sentDown ρ i <+: handledDown ρ j := by
  obtain ⟨p, hpos, hlt, hm⟩ := h.models
  obtain ⟨j, hj, hgot⟩ := (downHistory h hm).delivers (itemCode ⟨hpos, hlt⟩)
    (downServed h hw hm ⟨hpos, hlt⟩) i
  obtain ⟨k, hk, htaken⟩ := downQueue_drains h hproxy fun k hk => halive k (hj.trans hk)
  exact ⟨k, hj.trans hk, hgot.trans htaken⟩

/-- What is reported to the relay is handled as long as its thread lives. -/
theorem sentUp_handled (h : Quiet ρ) (hw : Working ρ) (hrelay : ρ.Fair Action.OfRelay) {i : ℕ}
    (halive : ∀ j ≥ i, ∀ e, (ρ.state j).relay.phase ≠ .crashed e) :
    ∃ j ≥ i, sentUp ρ i <+: handledUp ρ j := by
  obtain ⟨p, hpos, hlt, hm⟩ := h.models
  obtain ⟨j, hj, hgot⟩ := (upHistory h hm).delivers (itemCode ⟨hpos, hlt⟩) (upServed h hw hm) i
  obtain ⟨k, hk, htaken⟩ := upQueue_drains h hrelay fun k hk => halive k (hj.trans hk)
  exact ⟨k, hj.trans hk, hgot.trans htaken⟩

/-- **Everything that is reported is handled**: in a session that nothing disturbs, the items that
the local proxy has taken are the first of those that the relay has reported, in the same order, and
the other way; and if both management threads run, the connection moves bytes and the thread of the
local proxy, or of the relay, runs, then it has taken everything that was reported to it up to some
time, unless an exception has ended it. -/
theorem reports_handled (h : Quiet ρ) (i : ℕ) :
    (handledDown ρ i <+: sentDown ρ i ∧ handledUp ρ i <+: sentUp ρ i) ∧
      (Working ρ → ρ.Fair Action.OfProxy → ∃ j ≥ i,
        (∃ e, (ρ.state j).proxy.phase = .crashed e) ∨ sentDown ρ i <+: handledDown ρ j) ∧
      (Working ρ → ρ.Fair Action.OfRelay → ∃ j ≥ i,
        (∃ e, (ρ.state j).relay.phase = .crashed e) ∨ sentUp ρ i <+: handledUp ρ j) := by
  refine ⟨⟨?_, ?_⟩, fun hw hproxy => ?_, fun hw hrelay => ?_⟩
  · exact ((downQueue h).take_before i).trans (gotDown_sent h i)
  · exact ((upQueue h).take_before i).trans (gotUp_sent h i)
  · by_contra hnever
    have halive (j : ℕ) (hj : j ≥ i) (e : PyError) : (ρ.state j).proxy.phase ≠ .crashed e :=
      fun he => hnever ⟨j, hj, .inl ⟨e, he⟩⟩
    obtain ⟨j, hj, hhandled⟩ := sentDown_handled h hw hproxy halive
    exact hnever ⟨j, hj, .inr hhandled⟩
  · by_contra hnever
    have halive (j : ℕ) (hj : j ≥ i) (e : PyError) : (ρ.state j).relay.phase ≠ .crashed e :=
      fun he => hnever ⟨j, hj, .inl ⟨e, he⟩⟩
    obtain ⟨j, hj, hhandled⟩ := sentUp_handled h hw hrelay halive
    exact hnever ⟨j, hj, .inr hhandled⟩

/-! ## A run in which it is handled -/

/-- One turn of the loops of the local proxy and of the relay. -/
def Run.proxyTurns : List Action :=
  [.proxy .turn, .proxy .turn, .proxy (.select []), .proxy .turn]

def Run.relayTurns : List Action := [.relay (.select []), .relay .turn, .relay .turn]

def withProxyAt (s : System) (p : LocalPhase) : System :=
  { s with client := { s.client with proxy := { s.proxy with phase := p } } }

def withRelayAt (s : System) (p : RelayPhase) : System :=
  { s with server := s.server.setRelay 0 { s.relay with phase := p } }

theorem proxyStep_goes {a : LocalProxy.LocalAction} {p p' : LocalPhase}
    (hc : s.client.close = false) (ht : s.tagAllowed a = true)
    (hl : LocalProxy.step false { s.proxy with phase := p } a =
      some ({ s.proxy with phase := p' }, [])) :
    (s.withProxyAt p).proxyStep a = some (s.withProxyAt p') := by
  have hl' : (s.withProxyAt p).client.proxyStep a =
      some ((s.withProxyAt p').client, []) := by
    unfold Client.proxyStep
    simp only [withProxyAt, hc, hl, Option.map_some, Client.proxyMoved, List.map_nil,
      List.append_nil, List.isEmpty_nil, Bool.not_true, Bool.or_false]
  unfold System.proxyStep
  rw [if_pos (show (s.withProxyAt p).tagAllowed a = true from ht), hl']
  simp [withProxyAt, proxy, LocalProxy.pending]

theorem relayStep_goes {a : Relay.RelayAction} {p p' : RelayPhase} (hn : 0 < s.server.nrelays)
    (hc : s.server.closeService = false) (hb : ∀ result, a ≠ .listen result)
    (hr : Relay.step false { s.relay with phase := p } a =
      some ({ s.relay with phase := p' }, [])) :
    (s.withRelayAt p).relayStep a = some (s.withRelayAt p') := by
  have hl : (s.withRelayAt p).server.listenBlocked 0 a = false := by
    unfold Server.listenBlocked
    split
    · exact absurd rfl (hb _)
    · rfl
  rw [relay] at hr
  unfold relayStep Server.relayStep
  rw [hl]
  simp [withRelayAt, Server.setRelay, hn, hc, hr, Server.relayMoved, relay]

theorem exec_proxyTurns (h : s.still = true) (hp : s.proxy.phase = .top)
    (hq : s.proxy.toLocal = []) (hc : s.client.close = false) :
    exec step (fun s a => s.undisturbed a && s.still) s Run.proxyTurns = some s := by
  have hs : s.withProxyAt .top = s := by
    rw [withProxyAt, ← hp]
    rfl
  have hgoes (p p' : LocalPhase) (a : LocalProxy.LocalAction) (as : List Action)
      (hl : (s.withProxyAt p).proxyStep a = some (s.withProxyAt p')) :
      exec step (fun s a => s.undisturbed a && s.still) (s.withProxyAt p) (.proxy a :: as) =
        exec step (fun s a => s.undisturbed a && s.still) (s.withProxyAt p') as :=
    exec_cons h hl
  have hround : exec step (fun s a => s.undisturbed a && s.still) (s.withProxyAt .top)
      Run.proxyTurns = some (s.withProxyAt .top) := by
    unfold Run.proxyTurns
    rw [hgoes .top (.batch LocalProxy.BOUNDED_BATCH) .turn _ (proxyStep_goes hc rfl rfl),
      hgoes (.batch LocalProxy.BOUNDED_BATCH) .select .turn _ (proxyStep_goes hc rfl (if_pos hq)),
      hgoes .select (.dispatch []) (.select []) _ (proxyStep_goes hc rfl rfl),
      hgoes (.dispatch []) .top .turn _ (proxyStep_goes hc rfl rfl)]
    rfl
  rw [hs] at hround
  exact hround

theorem exec_relayTurns (h : s.still = true) (hn : 0 < s.server.nrelays)
    (hp : s.relay.phase = .top) (hq : s.relay.outbound = []) (ha : s.relay.atomicClose = false)
    (hc : s.server.closeService = false) :
    exec step (fun s a => s.undisturbed a && s.still) s Run.relayTurns = some s := by
  have hs : s.withRelayAt .top = s := by
    rw [withRelayAt, ← hp]
    simp [Server.setRelay, relay]
  have hgoes (p p' : RelayPhase) (a : Relay.RelayAction) (as : List Action)
      (hu : s.undisturbed (.relay a) = true)
      (hl : (s.withRelayAt p).relayStep a = some (s.withRelayAt p')) :
      exec step (fun s a => s.undisturbed a && s.still) (s.withRelayAt p) (.relay a :: as) =
        exec step (fun s a => s.undisturbed a && s.still) (s.withRelayAt p') as :=
    exec_cons ((Bool.and_eq_true ..).mpr ⟨hu, h⟩) hl
  have hselects : Relay.step false { s.relay with phase := .top } (.select []) =
      some ({ s.relay with phase := .dispatch [] }, []) := by
    simp [Relay.step, ha, Relay.selectable]
  have hdrained : Relay.step false { s.relay with phase := .drain } .turn =
      some ({ s.relay with phase := .top }, []) := by
    simp only [Relay.step, ha, Bool.or_self, Bool.false_eq_true, if_false]
    split
    · rfl
    · rename_i ho
      cases hq.symm.trans ho
  have hround : exec step (fun s a => s.undisturbed a && s.still) (s.withRelayAt .top)
      Run.relayTurns = some (s.withRelayAt .top) := by
    unfold Run.relayTurns
    rw [hgoes .top (.dispatch []) (.select []) _ rfl (relayStep_goes hn hc (by simp) hselects),
      hgoes (.dispatch []) .drain .turn _ rfl (relayStep_goes hn hc (by simp) rfl),
      hgoes .drain .top .turn _ rfl (relayStep_goes hn hc (by simp) hdrained)]
    rfl
  rw [hs] at hround
  exact hround

/-- All four threads are at the top of their loops, and nothing waits for them. -/
def settled (s : System) : Bool :=
  s.resting && 0 < s.server.nrelays && s.relay.phase = .top && s.relay.outbound.isEmpty &&
    !s.relay.atomicClose && s.proxy.phase = .top && s.proxy.toLocal.isEmpty

def Run.allTurns : List Action := Run.turns ++ (Run.relayTurns ++ Run.proxyTurns)

theorem exec_allTurns (h : s.settled = true) :
    exec step (fun s a => s.undisturbed a && s.still) s Run.allTurns = some s := by
  simp only [settled, Bool.and_eq_true, decide_eq_true_eq, List.isEmpty_iff,
    Bool.not_eq_true'] at h
  obtain ⟨⟨⟨⟨⟨⟨hrest, hn⟩, hrelay⟩, hout⟩, hatomic⟩, hproxy⟩, hlocal⟩ := h
  obtain ⟨hstill, hservice, hclose⟩ : s.still = true ∧ s.server.closeService = false ∧
      s.client.close = false := by
    simp only [resting, Bool.and_eq_true, Bool.not_eq_true'] at hrest
    obtain ⟨⟨⟨⟨⟨⟨⟨⟨⟨hstill, -⟩, -⟩, -⟩, hservice⟩, -⟩, -⟩, -⟩, -⟩, hclose⟩ := hrest
    exact ⟨hstill, hservice, hclose⟩
  rw [Run.allTurns, exec_append (exec_turns hrest),
    exec_append (exec_relayTurns hstill hn hrelay hout hatomic hservice),
    exec_proxyTurns hstill hproxy hlocal hclose]

/-- The announcement of a connection arrives, and the local proxy connects. -/
def Run.connected : List Action :=
  Run.announced ++ Run.proxyHandles [(0, ⟨.ok 7, .ok ()⟩)] [] []

theorem reports_handled_newConnection : ∃ ρ : Run (Fires step), Quiet ρ ∧ Working ρ ∧
    ρ.Fair Action.OfRelay ∧ ρ.Fair Action.OfProxy ∧
    (∃ k, (ρ.state k).proxy.connections.lookup Run.peer = some 0) ∧
    ∀ i, (handledDown ρ i <+: sentDown ρ i ∧ handledUp ρ i <+: sentUp ρ i) ∧
      (∃ j ≥ i, (∃ e, (ρ.state j).proxy.phase = .crashed e) ∨ sentDown ρ i <+: handledDown ρ j) ∧
      ∃ j ≥ i, (∃ e, (ρ.state j).relay.phase = .crashed e) ∨ sentUp ρ i <+: handledUp ρ j := by
  have hx : (run (fun s a => s.undisturbed a) Run.connected).map (fun s =>
      (s.settled, s.proxy.connections.lookup Run.peer)) = some (true, some 0) := by
    decide +kernel
  obtain ⟨t, ht, hseen⟩ := Option.map_eq_some_iff.mp hx
  obtain ⟨hsettled, hlookup⟩ := Prod.mk.inj hseen
  obtain ⟨ρ, hquiet, -, hworking, ⟨k, hk⟩, hfair⟩ := exists_working (fun _ _ h => h)
    (s := start 4000) ⟨4000, by decide, by decide, rfl⟩ (.exec (fun _ _ h => h) ht) .refl
    (exec_allTurns hsettled) ⟨.mgr .turn, by simp, _, rfl⟩ ⟨.remote .turn, by simp, _, rfl⟩
  have hrelay : ρ.Fair Action.OfRelay :=
    hfair _ ⟨.relay .turn, by simp [Run.relayTurns], _, rfl⟩
  have hproxy : ρ.Fair Action.OfProxy :=
    hfair _ ⟨.proxy .turn, by simp [Run.proxyTurns], _, rfl⟩
  refine ⟨ρ, hquiet, hworking, hrelay, hproxy, ⟨k, hk ▸ hlookup⟩, fun i => ?_⟩
  obtain ⟨horder, hdown, hup⟩ := reports_handled hquiet i
  exact ⟨horder, hdown hworking hproxy, hup hworking hrelay⟩

end System
end PortPort
