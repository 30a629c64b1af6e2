import PortPort.Lib.Routing
import PortPort.Server.RelayTable

/-! # What reaches a relay

`process_msg` is a router: CREATE_RELAY registers a relay under its port, DESTROY_RELAY removes the
entry of a port, and DATA and CLOSE_CONNECTION are handed to the relay that is registered under the
port they name. Nothing else puts anything on the queue of a relay. -/

namespace PortPort
open PortPortMessage
open Relay (BindResult)
open Routing (Router Cmd)

/-- The item that a DATA or CLOSE_CONNECTION frame is for the relay it names. -/
def outboundItem (msg : PortPortMessage) : Option QueuedRelayMessage :=
  match msg.msgType with
  | .closeConnection => some ⟨.closeConnection, msg.addr, msg.port, [], msg.relayPort⟩
  | .data => some ⟨.message, msg.addr, msg.port, msg.data, msg.relayPort⟩
  | _ => none

/-- A DATA or CLOSE_CONNECTION frame that names the port. -/
def namesRelay (port : Int) (msg : PortPortMessage) : Bool :=
  (msg.msgType = .data || msg.msgType = .closeConnection) && msg.relayPort = port

/-- What a frame asks of the router; `binds` are the results of the `bind` calls of a new relay. -/
def command (portRange : Option (Int × Int)) (msg : PortPortMessage) (binds : List BindResult) :
    Cmd Int QueuedRelayMessage :=
  match msg.msgType with
  | .createRelay =>
    match Relay.init portRange binds with
    | some (.ok r) => .register r.identifyingPort
    | _ => .skip
  | .destroyRelay => .remove msg.relayPort
  | _ =>
    match outboundItem msg with
    | some q => .deliver msg.relayPort q
    | none => .skip

section
variable {msg : PortPortMessage} {portRange : Option (Int × Int)} {binds : List BindResult}

theorem command_of_item {q : QueuedRelayMessage} (h : outboundItem msg = some q) :
    command portRange msg binds = .deliver msg.relayPort q := by
  unfold outboundItem at h
  cases ht : msg.msgType <;> simp_all [command, outboundItem]

theorem command_of_no_item (h : outboundItem msg = none) (k : Int) (q : QueuedRelayMessage) :
    command portRange msg binds ≠ .deliver k q := by
  unfold outboundItem at h
  unfold command
  cases ht : msg.msgType <;> simp_all [outboundItem]
  split <;> nofun

theorem command_delivers (p : Int) :
    (command portRange msg binds).delivers p = namesRelay p msg := by
  cases ht : msg.msgType with
  | createRelay =>
    simp only [command, namesRelay, ht]
    split <;> rfl
  | _ => simp [command, outboundItem, namesRelay, Cmd.delivers, ht]

end

namespace Server

/-- The table of the relays, without the entry that `process_msg` is about to delete. -/
def settled (s : Server) : Dict Int Nat :=
  match s.mgr.phase with
  | .joining port _ => s.mgr.relays.erase port
  | _ => s.mgr.relays

/-- What has been put on the queue of the relay between two states. -/
def putOn (s s' : Server) (rid : Nat) : List QueuedRelayMessage :=
  (s'.relay rid).outbound.drop (s.relay rid).outbound.length

/-- The router has made the relays of the server and has registered them as `process_msg` has. -/
structure Routes (r : Router Int QueuedRelayMessage) (s : Server) : Prop where
  made : r.made = s.nrelays
  table : r.table = s.settled
  key : ∀ rid < s.nrelays, r.key rid = some (s.relay rid).identifyingPort

/-- The router has become `r'` as the server has become `s'`. -/
structure Follows (r r' : Router Int QueuedRelayMessage) (s s' : Server) : Prop where
  routes : Routes r' s'
  received : ∀ rid, r'.received rid = r.received rid ++ s.putOn s' rid
  queue : ∀ rid, (s.relay rid).outbound <+: (s'.relay rid).outbound ∨
    (s'.relay rid).outbound <:+ (s.relay rid).outbound

variable {s s' : Server} {r : Router Int QueuedRelayMessage} {msg : PortPortMessage}
  {results : List BindResult}

theorem settled_of_phase (h : ∀ port rid, s.mgr.phase ≠ .joining port rid) :
    s.settled = s.mgr.relays := by
  unfold settled
  split
  · rename_i port rid hp
    exact absurd hp (h port rid)
  · rfl

theorem Routes.table_recvLoop (hr : Routes r s) (hp : s.mgr.phase = .recvLoop) :
    r.table = s.mgr.relays :=
  hr.table.trans (settled_of_phase fun _ _ hj => nomatch hp.symm.trans hj)

/-- No relay is made, and nothing is put on a queue. -/
structure Unfed (s s' : Server) : Prop where
  nrelays : s'.nrelays = s.nrelays
  port : ∀ rid, (s'.relay rid).identifyingPort = (s.relay rid).identifyingPort
  queue : ∀ rid, (s'.relay rid).outbound <:+ (s.relay rid).outbound

theorem Unfed.of_relay (hn : s'.nrelays = s.nrelays) (hr : s'.relay = s.relay) : Unfed s s' where
  nrelays := hn
  port rid := by rw [hr]
  queue rid := hr ▸ List.suffix_refl _

theorem Unfed.setRelay {rid : Nat} {relay : Relay} (hn : s'.nrelays = s.nrelays)
    (hr : s'.relay = Function.update s.relay rid relay)
    (hport : relay.identifyingPort = (s.relay rid).identifyingPort)
    (hqueue : relay.outbound <:+ (s.relay rid).outbound) : Unfed s s' := by
  have hrelay (i : Nat) : i = rid ∧ s'.relay i = relay ∨ s'.relay i = s.relay i := by
    by_cases hi : i = rid
    · exact .inl ⟨hi, by rw [hr, hi, Function.update_self]⟩
    · exact .inr (by rw [hr, Function.update_of_ne hi])
  refine ⟨hn, fun i => ?_, fun i => ?_⟩
  · rcases hrelay i with ⟨rfl, hi⟩ | hi
    · exact (congrArg Relay.identifyingPort hi).trans hport
    · exact congrArg Relay.identifyingPort hi
  · rcases hrelay i with ⟨rfl, hi⟩ | hi
    · exact hi ▸ hqueue
    · exact hi ▸ List.suffix_refl _

/-- The router has at most lost an entry. -/
theorem Unfed.follows {table : Dict Int Nat} (h : Unfed s s') (hr : Routes r s)
    (ht : table = s'.settled) : Follows r { r with table } s s' where
  routes := ⟨hr.made.trans h.nrelays.symm, ht, fun rid hrid => by
    rw [h.port]
    exact hr.key rid (h.nrelays ▸ hrid)⟩
  received rid := by
    rw [putOn, List.drop_eq_nil_of_le (h.queue rid).length_le, List.append_nil]
  queue rid := .inr (h.queue rid)

theorem Unfed.keeps (h : Unfed s s') (hr : Routes r s) (ht : s'.settled = s.settled) :
    Follows r r s s' := h.follows hr (hr.table.trans ht.symm)

/-- Behind a reply or an `except` clause. -/
theorem Replied.settled {m : Manager} (h : Replied (s.withMgr m) s') : s'.settled = m.relays := by
  rw [settled_of_phase, h.relays]
  · rfl
  · intro port rid hp
    rcases h.phase with hph | hph <;> cases hph.symm.trans hp

theorem Replied.keeps {m : Manager} (h : Replied (s.withMgr m) s') (hr : Routes r s)
    (hm : m.relays = s.settled) : Follows r r s s' :=
  Unfed.keeps (.of_relay h.nrelays h.relay) hr (h.settled.trans hm)

/-- A relay is made and registered under its port. -/
theorem Follows.made {p : Int} (hr : Routes r s) (hp : s.mgr.phase = .recvLoop)
    (hn : s'.nrelays = s.nrelays + 1) (ht : s'.settled = s.mgr.relays.set p s.nrelays)
    (hrelay : s'.relay = Function.update s.relay s.nrelays { identifyingPort := p }) :
    Follows r (r.step (.register p)) s s' where
  routes := by
    have htable := hr.table_recvLoop hp
    refine ⟨(congrArg (· + 1) hr.made).trans hn.symm, ?_, fun rid hrid => ?_⟩
    · rw [ht, Router.step, htable, hr.made]
    · rw [hrelay, Router.step, hr.made]
      by_cases hlast : rid = s.nrelays
      · subst hlast
        simp only [Function.update_self]
      · simp only [Function.update_of_ne hlast]
        exact hr.key rid (by omega)
  received rid := by
    have hnew : s.putOn s' rid = [] := by
      rw [putOn, hrelay]
      by_cases hlast : rid = s.nrelays
      · subst hlast
        simp only [Function.update_self, List.drop_nil]
      · rw [Function.update_of_ne hlast, List.drop_length]
    rw [hnew, List.append_nil]
    rfl
  queue rid := by
    rw [hrelay]
    by_cases hlast : rid = s.nrelays
    · subst hlast
      rw [Function.update_self]
      exact .inr List.nil_suffix
    · rw [Function.update_of_ne hlast]
      exact .inl (List.prefix_refl _)

/-- An item is put on the queue of the relay that is registered under the port it names. -/
theorem Follows.enqueued {p : Int} {rid : Nat} {q : QueuedRelayMessage} (hr : Routes r s)
    (hp : s.mgr.phase = .recvLoop) (hl : s.mgr.relays.lookup p = some rid) :
    Follows r (r.step (.deliver p q)) s
      ((s.setRelay rid ((s.relay rid).enqueueOutbound q)).goto .recvLoop) where
  routes := by
    have htable := hr.table_recvLoop hp
    rw [Router.step_deliver_some (htable ▸ hl)]
    refine ⟨hr.made, htable, fun i hi => ?_⟩
    rw [goto_relay, setRelay_relay]
    by_cases hir : i = rid
    · subst hir
      rw [Function.update_self]
      exact hr.key i hi
    · rw [Function.update_of_ne hir]
      exact hr.key i hi
  received i := by
    have htable := hr.table_recvLoop hp
    rw [Router.step_received, Router.handed, htable, hl, putOn, goto_relay, setRelay_relay]
    by_cases hir : i = rid
    · subst hir
      simp [Relay.enqueueOutbound, Relay.wakeup]
    · simp [hir, Ne.symm hir]
  queue i := by
    rw [goto_relay, setRelay_relay]
    by_cases hir : i = rid
    · subst hir
      rw [Function.update_self]
      exact .inl (List.prefix_append ..)
    · rw [Function.update_of_ne hir]
      exact .inl (List.prefix_refl _)

/-- `process_msg` does what its frame asks of the router. -/
theorem processMsg_follows (hr : Routes r s) (hp : s.mgr.phase = .recvLoop)
    (h : s.processMsg msg results = some s') :
    Follows r (r.step (command s.portRange msg results)) s s' := by
  have htable := hr.table_recvLoop hp
  have hkept (h : Replied s s') : Follows r r s s' :=
    h.keeps (m := s.mgr) hr (htable.symm.trans hr.table)
  unfold processMsg at h
  split at h
  · rename_i ht
    split at h <;> cases h
    · rename_i relay hinit
      obtain ⟨p, -, rfl⟩ := Relay.init_bound hinit
      simp only [command, ht, hinit]
      exact .made hr hp rfl rfl rfl
    · rename_i hinit
      simp only [command, ht, hinit]
      exact hkept (reply_replied ..)
    · rename_i hinit
      simp only [command, ht, hinit]
      exact hkept (recvExcept_replied ..)
  · rename_i ht
    simp only [command, ht, outboundItem]
    split at h <;> cases h
    · exact .enqueued hr hp ‹_›
    · rename_i hnone
      rw [Router.step_deliver_none (htable ▸ hnone)]
      exact hkept (recvExcept_replied ..)
  · rename_i ht
    simp only [command, ht]
    split at h <;> cases h
    · refine Unfed.follows ?_ hr (congrArg (AList.erase _) htable)
      exact .setRelay rfl rfl rfl (List.suffix_refl _)
    · rename_i hnone
      refine Unfed.follows ?_ hr ?_
      · exact .of_relay rfl rfl
      · rw [htable, Dict.erase_of_lookup_eq_none hnone]
        rfl
  · rename_i ht
    simp only [command, ht, outboundItem]
    split at h <;> cases h
    · exact .enqueued hr hp ‹_›
    · rename_i hnone
      rw [Router.step_deliver_none (htable ▸ hnone)]
      exact hkept (reply_replied ..)
  · cases h
    have hskip : command s.portRange msg results = .skip := by
      cases ht : msg.msgType <;> simp_all [command, outboundItem]
    rw [hskip]
    exact Unfed.keeps (.of_relay rfl rfl) hr (htable.symm.trans hr.table)

theorem Replies.portRange {fs : List PortPortMessage} (h : Replies s fs s') :
    s'.portRange = s.portRange := by
  cases h with
  | sends => rfl
  | breaks => rfl

theorem mgrStep_portRange {a : ManagerAction} (h : s.mgrStep a = some s') :
    s'.portRange = s.portRange := by
  cases mgrStep_moves h with
  | takes _ _ _ hmsg =>
    cases hmsg with
    | replies hr => exact hr.portRange
    | _ => rfl
  | refuses _ _ hr => exact hr.portRange
  | announces _ hr => exact hr.portRange
  | destroys _ _ hr => exact hr.portRange
  | _ => rfl

theorem drains_settled {m : Manager} {left : Nat} (hd : s.mgr.Drains left m) :
    (s.withMgr m).settled = s.mgr.relays := by
  cases hd with
  | sends hl hi hm =>
    obtain ⟨data, writeEnabled, mask, -, rfl⟩ := Manager.send_sent hm
    rfl
  | _ => rfl

/-- Any other step of the thread leaves the relays and what stands on their queues as they are. -/
theorem mgrStep_unfed {a : ManagerAction} (ha : ∀ results, a ≠ .recvTurn results)
    (h : s.mgrStep a = some s') : Unfed s s' ∧ s'.settled = s.settled := by
  have hsame {s' : Server} (hn : s'.nrelays = s.nrelays) (hr : s'.relay = s.relay)
      (hm : s'.mgr.relays = s.mgr.relays) (hp : ∀ port rid, s.mgr.phase ≠ .joining port rid)
      (hp' : ∀ port rid, s'.mgr.phase ≠ .joining port rid) :
      Unfed s s' ∧ s'.settled = s.settled :=
    ⟨.of_relay hn hr, by rw [settled_of_phase hp, settled_of_phase hp', hm]⟩
  cases mgrStep_moves h with
  | emptied | takes | refuses => exact absurd rfl (ha _)
  | leaves hp | selects hp | wakeupRead hp | dispatched hp | ends hp =>
    exact hsame rfl rfl rfl (by simp [hp]) nofun
  | @clientIo mask events io hp =>
    refine hsame rfl rfl (s.mgr.handleRelayClient_moved mask io).relays (by simp [hp]) ?_
    intro port rid
    simp only [withMgr_mgr]
    split <;> nofun
  | announces hp hr =>
    have hs := hr.replied
    refine ⟨.of_relay hs.nrelays hs.relay, ?_⟩
    rw [hs.settled (m := s.mgr), settled_of_phase (by simp [hp])]
  | destroys hp _ hr =>
    have hs := hr.replied
    refine ⟨.of_relay hs.nrelays hs.relay, ?_⟩
    rw [hs.settled, settled, hp]
  | drains hp =>
    refine ⟨.of_relay rfl rfl, ?_⟩
    rw [drains_settled (s.mgr.inboundTurn_drains _), settled_of_phase (by simp [hp])]
  | closes hp =>
    refine ⟨.setRelay rfl rfl rfl (List.suffix_refl _), ?_⟩
    rw [settled_of_phase (s := s) (by simp [hp])]
    rfl

end Server

/-! ## Runs -/

/-- A call of `process_msg`. -/
structure Handling where
  msg : PortPortMessage
  /-- the results of the `bind` calls, if a relay was to be made -/
  binds : List BindResult
  /-- the table of the relays when the call was made -/
  relays : Dict Int Nat

/-- The relay was registered under the port that the frame names. -/
def Handling.reaches (c : Handling) (rid : Nat) : Bool :=
  c.relays.lookup c.msg.relayPort = some rid

/-- The relay was registered, under whichever port. -/
def Handling.registers (c : Handling) (rid : Nat) : Bool :=
  c.relays.keys.any fun port => c.relays.lookup port = some rid

/-- A run of the management thread among its relays, with the calls of `process_msg` and with what
has been put on the queue of each relay. -/
structure RoutedRun where
  run : ManagerRun
  handled : List Handling := []
  received : Nat → List QueuedRelayMessage := fun _ => []

namespace RoutedRun
open ManagerRun (Event)
open Server (TableSound Routes Unfed Follows)

abbrev server (s : RoutedRun) : Server := s.run.server

/-- The call of `process_msg` that the event makes. -/
def handling (s : Server) : Event → List Handling
  | .thread (.recvTurn results) =>
    match grabMsg s.mgr.recvq with
    | .ok (msg, _) =>
      [{ msg, binds := if msg.msgType = .createRelay then results else [], relays := s.mgr.relays }]
    | .error _ => []
  | _ => []

def step (s : RoutedRun) (e : Event) : Option RoutedRun :=
  (ManagerRun.step s.run e).map fun run =>
    { run
      handled := s.handled ++ handling s.server e
      received := fun rid => s.received rid ++ s.server.putOn run.server rid }

def Init (s : RoutedRun) : Prop :=
  ManagerRun.Init s.run ∧ s.handled = [] ∧ ∀ rid, s.received rid = []

abbrev Reachable (P : RoutedRun → Event → Prop) : RoutedRun → Prop :=
  Transition.Reach (Transition.Fires step) P Init

/-- Every run of the thread is recorded so. -/
theorem exists_reachable {run : ManagerRun} (h : ManagerRun.Reachable (fun _ _ => True) run) :
    ∃ s : RoutedRun, Reachable (fun _ _ => True) s ∧ s.run = run := by
  induction h with
  | init hi => exact ⟨{ run := _ }, .init ⟨hi, rfl, fun _ => rfl⟩, rfl⟩
  | step _ _ hs ih =>
    obtain ⟨s, hr, rfl⟩ := ih
    exact ⟨_, hr.step trivial (congrArg (Option.map _) hs), rfl⟩

/-- The frames that `process_msg` has been called on, with what the `bind` calls returned. -/
def frames (s : RoutedRun) : List (PortPortMessage × List BindResult) :=
  s.handled.map fun h => (h.msg, h.binds)

/-- The router behind these frames. -/
def router (s : RoutedRun) : Router Int QueuedRelayMessage :=
  ({} : Router Int QueuedRelayMessage).run
    (s.frames.map fun (msg, binds) => command s.server.portRange msg binds)

variable {s s' t : RoutedRun} {e : Event}

theorem command_binds (portRange : Option (Int × Int)) (msg : PortPortMessage)
    (results : List BindResult) :
    command portRange msg (if msg.msgType = .createRelay then results else []) =
      command portRange msg results := by
  split
  · rfl
  · cases ht : msg.msgType <;> simp_all [command]

theorem handling_ok {s : Server} {results : List BindResult} {msg : PortPortMessage} {recvq : Bytes}
    (h : grabMsg s.mgr.recvq = .ok (msg, recvq)) :
    handling s (.thread (.recvTurn results)) =
      [{ msg, binds := if msg.msgType = .createRelay then results else [],
         relays := s.mgr.relays }] := by
  simp only [handling, h]

theorem handling_error {s : Server} {results : List BindResult} {x : PyError}
    (h : grabMsg s.mgr.recvq = .error x) : handling s (.thread (.recvTurn results)) = [] := by
  simp only [handling, h]

/-- A turn of the receive loop. -/
theorem recvTurn_follows {s s' : Server} {r : Router Int QueuedRelayMessage}
    {results : List BindResult} (hr : Routes r s) (hp : s.mgr.phase = .recvLoop)
    (h : s.recvTurn results = some s') :
    Follows r (r.run ((handling s (.thread (.recvTurn results))).map fun c =>
      command s.portRange c.msg c.binds)) s s' := by
  have htable := hr.table_recvLoop hp
  unfold Server.recvTurn at h
  split at h
  · rename_i hnil
    cases h
    rw [handling_error (congrArg grabMsg hnil)]
    exact Unfed.keeps (.of_relay rfl rfl) hr (htable.symm.trans hr.table)
  cases hgrab : grabMsg s.mgr.recvq with
  | ok out =>
    obtain ⟨msg, recvq⟩ := out
    have hr' : Routes r (s.withMgr { s.mgr with recvq }) := ⟨hr.made, hr.table, hr.key⟩
    rw [hgrab] at h
    have hf := Server.processMsg_follows hr' hp h
    rw [handling_ok hgrab, List.map_singleton, command_binds]
    exact ⟨hf.routes, hf.received, hf.queue⟩
  | error x =>
    rw [hgrab] at h
    cases h
    rw [handling_error hgrab]
    exact (Server.recvExcept_replied s x).keeps (m := s.mgr) hr (htable.symm.trans hr.table)

/-- The other threads put nothing on a queue. -/
theorem others_unfed {s s' : ManagerRun} (he : ∀ a, e ≠ .thread a)
    (h : ManagerRun.step s e = some s') :
    Unfed s.server s'.server ∧ s'.server.settled = s.server.settled := by
  obtain ⟨inboundData, wakeupPending, hm⟩ := ManagerRun.step_others he h
  refine ⟨?_, by rw [Server.settled, hm]; rfl⟩
  cases e with
  | thread a => exact absurd rfl (he a)
  | relay rid a =>
    obtain ⟨⟨server, puts⟩, hserver, rfl⟩ := Option.map_eq_some_iff.mp h
    obtain ⟨-, -, relay, hrelay, rfl⟩ := Server.relayStep_cases hserver
    exact .setRelay rfl rfl (Relay.step_socket hrelay).port (Relay.step_queue hrelay)
  | wakeup =>
    simp only [ManagerRun.step, Option.ite_none_right_eq_some, Option.some.injEq] at h
    obtain ⟨-, rfl⟩ := h
    exact .of_relay rfl rfl
  | shutdown =>
    cases h
    exact .of_relay rfl rfl

theorem run_follows {s s' : ManagerRun} {r : Router Int QueuedRelayMessage}
    (hr : Routes r s.server) (h : ManagerRun.step s e = some s') :
    Follows r (r.run ((handling s.server e).map fun c =>
      command s.server.portRange c.msg c.binds)) s.server s'.server := by
  cases e with
  | thread a =>
    obtain ⟨server, hserver, rfl⟩ := Option.map_eq_some_iff.mp h
    cases a with
    | recvTurn results =>
      obtain ⟨hp, -, hturn⟩ := Server.mgrStep_recvTurn hserver
      exact recvTurn_follows hr hp hturn
    | _ =>
      obtain ⟨hfed, ht⟩ := Server.mgrStep_unfed (by nofun) hserver
      exact hfed.keeps hr ht
  | _ =>
    obtain ⟨hfed, ht⟩ := others_unfed (by nofun) h
    exact hfed.keeps hr ht

theorem run_portRange {s s' : ManagerRun} (h : ManagerRun.step s e = some s') :
    s'.server.portRange = s.server.portRange := by
  cases e with
  | thread a =>
    obtain ⟨server, hserver, rfl⟩ := Option.map_eq_some_iff.mp h
    exact Server.mgrStep_portRange hserver
  | relay rid a =>
    obtain ⟨⟨server, puts⟩, hserver, rfl⟩ := Option.map_eq_some_iff.mp h
    obtain ⟨-, -, relay, -, rfl⟩ := Server.relayStep_cases hserver
    rfl
  | wakeup =>
    simp only [ManagerRun.step, Option.ite_none_right_eq_some, Option.some.injEq] at h
    obtain ⟨-, rfl⟩ := h
    rfl
  | shutdown =>
    cases h
    rfl

/-- An event makes no call of `process_msg`, or one at the test of the receive loop. -/
theorem handling_cases {s s' : ManagerRun} (h : ManagerRun.step s e = some s') :
    handling s.server e = [] ∨ ∃ c : Handling, handling s.server e = [c] ∧
      s.server.mgr.phase = .recvLoop ∧ c.relays = s.server.mgr.relays := by
  unfold handling
  split
  · obtain ⟨server, hserver, rfl⟩ := Option.map_eq_some_iff.mp h
    obtain ⟨hp, -, -⟩ := Server.mgrStep_recvTurn hserver
    split
    · exact .inr ⟨_, rfl, hp, rfl⟩
    · exact .inl rfl
  · exact .inl rfl

theorem handed_command {r : Router Int QueuedRelayMessage} (portRange : Option (Int × Int))
    (c : Handling) (ht : r.table = c.relays) (rid : Nat) :
    r.handed rid (command portRange c.msg c.binds) =
      ([c].filter (Handling.reaches · rid)).filterMap (outboundItem ·.msg) := by
  cases hq : outboundItem c.msg with
  | some q =>
    rw [command_of_item hq, Router.handed, ht]
    by_cases hl : c.relays.lookup c.msg.relayPort = some rid <;> simp [Handling.reaches, hl, hq]
  | none =>
    rw [List.filterMap_eq_nil_iff.mpr]
    · exact r.handed_of_ne rid (command_of_no_item hq)
    · intro b hb
      rw [List.mem_singleton.mp (List.mem_of_mem_filter hb), hq]

/-- What is put on a queue is what the frame is for the relay it reaches. -/
theorem putOn_eq {s s' : ManagerRun} {r : Router Int QueuedRelayMessage} (hr : Routes r s.server)
    (h : ManagerRun.step s e = some s') (rid : Nat) : s.server.putOn s'.server rid =
      ((handling s.server e).filter (Handling.reaches · rid)).filterMap (outboundItem ·.msg) := by
  have hreceived := (run_follows hr h).received rid
  rcases handling_cases h with hnone | ⟨c, hc, hp, hrelays⟩
  · rw [hnone] at hreceived ⊢
    exact List.append_cancel_left (hreceived.symm.trans (List.append_nil _).symm)
  · have ht : r.table = c.relays := (hr.table_recvLoop hp).trans hrelays.symm
    rw [hc] at hreceived ⊢
    rw [← handed_command s.server.portRange c ht]
    exact List.append_cancel_left (hreceived.symm.trans (r.step_received _ rid))

/-! ## What a run keeps -/

/-- The router goes along with the server, and what it has handed to a relay is what the calls of
`process_msg` have put on the queue of the relay. -/
structure Sound (s : RoutedRun) : Prop where
  table : TableSound s.server
  routes : Routes s.router s.server
  received : ∀ rid, s.router.received rid = s.received rid
  handled : ∀ rid, s.received rid =
    (s.handled.filter (Handling.reaches · rid)).filterMap (outboundItem ·.msg)
  /-- a relay in the table of a call has been made, and stands under its port -/
  entry : ∀ c ∈ s.handled, ∀ port rid, c.relays.lookup port = some rid →
    rid < s.server.nrelays ∧ (s.server.relay rid).identifyingPort = port
  queue : ∀ rid, (s.server.relay rid).outbound <:+ s.received rid

theorem Init.sound (h : Init s) : Sound s := by
  obtain ⟨⟨portRange, hstart⟩, hhandled, hreceived⟩ := h
  have hserver : s.server = (ManagerRun.start portRange).server := congrArg ManagerRun.server hstart
  have hrouter : s.router = {} := by simp [router, frames, hhandled, Router.run]
  refine ⟨?_, ?_, fun rid => ?_, fun rid => ?_, fun c hc => ?_, fun rid => ?_⟩
  · rw [hserver]
    exact ManagerRun.start_tableSound portRange
  · rw [hserver, hrouter]
    exact ⟨rfl, rfl, nofun⟩
  · rw [hrouter, hreceived]
  · rw [hreceived, hhandled]
    rfl
  · rw [hhandled] at hc
    cases hc
  · rw [hserver, hreceived]
    exact List.suffix_refl _

theorem step_cases (h : step s e = some s') : ∃ run, ManagerRun.step s.run e = some run ∧
    s' = { run, handled := s.handled ++ handling s.server e,
           received := fun rid => s.received rid ++ s.server.putOn run.server rid } := by
  obtain ⟨run, hrun, rfl⟩ := Option.map_eq_some_iff.mp h
  exact ⟨run, hrun, rfl⟩

/-- The router has run on the frames of one more event. -/
theorem step_router (h : step s e = some s') :
    s'.router = s.router.run ((handling s.server e).map fun c =>
      command s.server.portRange c.msg c.binds) := by
  obtain ⟨run, hrun, rfl⟩ := step_cases h
  have hrange : run.server.portRange = s.server.portRange := run_portRange hrun
  simp [router, frames, server, hrange, Router.run, Function.comp_def]

theorem step_entry (h0 : Sound s) (h : step s e = some s') (c : Handling) (hc : c ∈ s'.handled)
    (port : Int) (rid : Nat) (hl : c.relays.lookup port = some rid) :
    rid < s'.server.nrelays ∧ (s'.server.relay rid).identifyingPort = port := by
  obtain ⟨run, hrun, rfl⟩ := step_cases h
  have haged := ManagerRun.step_aged hrun
  have hold : rid < s.server.nrelays ∧ (s.server.relay rid).identifyingPort = port := by
    rcases List.mem_append.mp hc with hc | hc
    · exact h0.entry c hc port rid hl
    · rcases handling_cases hrun with hnone | ⟨c', hc', -, hrelays⟩
      · rw [hnone] at hc
        cases hc
      · rw [hc'] at hc
        cases List.mem_singleton.mp hc
        exact h0.table.key port rid (hrelays ▸ hl)
  exact ⟨Nat.lt_of_lt_of_le hold.1 haged.nrelays, (haged.port rid hold.1).trans hold.2⟩

theorem step_queue (h0 : Sound s) (h : step s e = some s') (rid : Nat) :
    (s'.server.relay rid).outbound <:+ s'.received rid := by
  obtain ⟨run, hrun, rfl⟩ := step_cases h
  have hold := h0.queue rid
  rcases (run_follows h0.routes hrun).queue rid with hq | hq
  · obtain ⟨added, hadded⟩ := hq
    obtain ⟨taken, htaken⟩ := hold
    refine ⟨taken, ?_⟩
    simp only [Server.putOn]
    rw [← hadded, List.drop_left, ← List.append_assoc, htaken]
  · refine (hq.trans hold).trans ?_
    simp only [Server.putOn, List.drop_eq_nil_of_le hq.length_le, List.append_nil]
    exact List.suffix_refl _

theorem Sound.step (h0 : Sound s) (h : step s e = some s') : Sound s' := by
  have hrouter := step_router h
  have hentry := step_entry h0 h
  have hqueue := step_queue h0 h
  obtain ⟨run, hrun, rfl⟩ := step_cases h
  have hf := run_follows h0.routes hrun
  refine ⟨ManagerRun.step_tableSound h0.table hrun, ?_, fun rid => ?_, fun rid => ?_, hentry,
    hqueue⟩
  · rw [hrouter]
    exact hf.routes
  · rw [hrouter, hf.received, h0.received]
  · rw [List.filter_append, List.filterMap_append, ← h0.handled, ← putOn_eq h0.routes hrun]

theorem Reachable.sound {P : RoutedRun → Event → Prop} (h : Reachable P s) : Sound s :=
  Transition.Reach.invariant (fun _ => Init.sound) (fun _ _ _ h0 _ hs => h0.step hs) h

/-- A frame that names the port of a relay while the relay is registered reaches it, and no other
does. -/
theorem Sound.reaches (h : Sound s) {c : Handling} (hc : c ∈ s.handled) (rid : Nat) :
    c.reaches rid = (c.registers rid &&
      c.msg.relayPort = (s.server.relay rid).identifyingPort) := by
  rw [Bool.eq_iff_iff]
  simp only [Handling.reaches, Handling.registers, decide_eq_true_eq, Bool.and_eq_true,
    List.any_eq_true]
  constructor
  · intro hl
    have hkey : c.msg.relayPort ∈ c.relays.keys :=
      AList.mem_keys.mp (AList.lookup_isSome.mp (Option.isSome_of_eq_some hl))
    exact ⟨⟨_, hkey, hl⟩, (h.entry c hc _ rid hl).2.symm⟩
  · rintro ⟨⟨port, -, hl⟩, hport⟩
    rw [hport, (h.entry c hc port rid hl).2]
    exact hl

/-- The routers of two runs, where one lacks the items for `p` that the other has. -/
theorem router_agree {p : Int} (hrange : t.server.portRange = s.server.portRange)
    (hframes : t.frames = s.frames.filter fun f => !namesRelay p f.1) :
    Router.AgreeBut p s.router t.router := by
  have hagree := (Router.AgreeBut.refl p ({} : Router Int QueuedRelayMessage)).run_without .init
    (s.frames.map fun (msg, binds) => command s.server.portRange msg binds)
  rw [List.filter_map] at hagree
  rw [router, router, hrange, hframes]
  simpa only [Function.comp_def, command_delivers] using hagree

/-- Relays on one management connection do not interfere. The queue of a relay is fed with exactly
the DATA and CLOSE_CONNECTION frames that named its port while it was registered; and a run that
has handled the same frames but for those that name `p` has the same table, and relays under other
ports have got the same. Where a thread is still to join a destroyed relay, its table is the one
without that relay. -/
theorem relays_independent (h : Reachable (fun _ _ => True) s) :
    (∀ rid, s.received rid =
        (s.handled.filter fun c => c.registers rid &&
          c.msg.relayPort = (s.server.relay rid).identifyingPort).filterMap
            (outboundItem ·.msg) ∧
      (s.server.relay rid).outbound <:+ s.received rid) ∧
    ∀ (t : RoutedRun) (p : Int), Reachable (fun _ _ => True) t →
      t.server.portRange = s.server.portRange →
      t.frames = (s.frames.filter fun f => !namesRelay p f.1) →
      t.server.settled = s.server.settled ∧
      ((∀ port rid, s.server.mgr.phase ≠ .joining port rid) →
        (∀ port rid, t.server.mgr.phase ≠ .joining port rid) →
        t.server.mgr.relays = s.server.mgr.relays) ∧
      t.server.nrelays = s.server.nrelays ∧
      ∀ rid < s.server.nrelays, (s.server.relay rid).identifyingPort ≠ p →
        (t.server.relay rid).identifyingPort = (s.server.relay rid).identifyingPort ∧
        t.received rid = s.received rid := by
  have hs := h.sound
  refine ⟨fun rid => ⟨?_, hs.queue rid⟩, fun t p ht hrange hframes => ?_⟩
  · rw [hs.handled]
    exact congrArg _ (List.filter_congr fun c hc => hs.reaches hc rid)
  · have htr := ht.sound
    have hagree := router_agree hrange hframes
    have hmade : t.server.nrelays = s.server.nrelays :=
      htr.routes.made.symm.trans (hagree.made.trans hs.routes.made)
    have hsettled : t.server.settled = s.server.settled :=
      htr.routes.table.symm.trans (hagree.table.trans hs.routes.table)
    refine ⟨hsettled, fun hp hp' => ?_, hmade, fun rid hrid hport => ?_⟩
    · rw [← Server.settled_of_phase hp, ← Server.settled_of_phase hp', hsettled]
    · have hkey := hs.routes.key rid hrid
      have hkey' := htr.routes.key rid (hmade ▸ hrid)
      refine ⟨Option.some.inj ?_, ?_⟩
      · rw [← hkey, ← hkey', hagree.key]
      · rw [← hs.received, ← htr.received, hagree.received rid]
        rw [hkey]
        exact fun he => hport (Option.some.inj he)

/-! ## Two relays -/

/-- The thread is about to enter the loop, and the service takes any port for its relays. -/
def start : RoutedRun := { run := ManagerRun.start none }

/-- The client asks for two relays, and sends these frames behind. -/
def twoRelays (msgs : List PortPortMessage) : Option RoutedRun :=
  let create : PortPortMessage := { msgType := .createRelay }
  let sent := (create :: create :: msgs).flatMap encode
  Transition.exec step (fun _ _ => true) start
    ([.thread (.select [(.client, .r)]), .thread (.clientIo { send := .ok 0, recv := .ok sent }),
      .thread .turn, .thread (.recvTurn [.bound 4000]), .thread .turn,
      .thread (.recvTurn [.bound 4001]), .thread .turn] ++
      msgs.map fun _ => .thread (.recvTurn []))

theorem twoRelays_reachable {msgs : List PortPortMessage} (h : twoRelays msgs = some s) :
    Reachable (fun _ _ => True) s :=
  .exec (fun _ _ _ => trivial) (.init ⟨⟨none, rfl⟩, rfl, fun _ => rfl⟩) h

def frame (msgType : PortPortMessageType) (relayPort : Int) (data : Bytes) : PortPortMessage :=
  { msgType, addr := .dotted 10 0 0 1, port := 5000, relayPort, data }

/-- What the relay 4001 is sent in both runs. -/
def sent4001 : List PortPortMessage :=
  [frame .data 4001 [1, 2], frame .closeConnection 4001 []]

/-- The first relay is sent data in one of the runs. -/
theorem relays_independent_two : ∃ s t : RoutedRun,
    (s.received 0).map QueuedRelayMessage.data = [[7]] ∧ t.received 0 = [] ∧
    t.server.mgr.relays = s.server.mgr.relays ∧ t.received 1 = s.received 1 ∧
    (s.received 1).map QueuedRelayMessage.data = [[1, 2], []] := by
  have hx : ((twoRelays (frame .data 4000 [7] :: sent4001)).bind fun s =>
      (twoRelays sent4001).map fun t => decide (
        s.server.mgr.phase = .recvLoop ∧ t.server.mgr.phase = .recvLoop ∧
        t.server.portRange = s.server.portRange ∧
        t.frames = s.frames.filter (fun f => !namesRelay 4000 f.1) ∧
        s.server.nrelays = 2 ∧ (s.server.relay 1).identifyingPort = 4001 ∧
        (s.received 0).map QueuedRelayMessage.data = [[7]] ∧ t.received 0 = [] ∧
        (s.received 1).map QueuedRelayMessage.data = [[1, 2], []])) = some true := by
    decide +kernel
  obtain ⟨s, hs, hx⟩ := Option.bind_eq_some_iff.mp hx
  obtain ⟨t, ht, hx⟩ := Option.map_eq_some_iff.mp hx
  obtain ⟨hp, hp', hrange, hframes, hn, hport, hfirst, hfirst', hsecond⟩ := of_decide_eq_true hx
  obtain ⟨-, hother⟩ := relays_independent (twoRelays_reachable hs)
  obtain ⟨-, htable, -, hreceived⟩ := hother t 4000 (twoRelays_reachable ht) hrange hframes
  refine ⟨s, t, hfirst, hfirst', ?_, ?_, hsecond⟩
  · exact htable (by simp [hp]) (by simp [hp'])
  · exact (hreceived 1 (by omega) (by omega)).2

end RoutedRun
end PortPort
