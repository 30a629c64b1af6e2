import PortPort.Server.RelayTable
import PortPort.System.FrameStream

/-! # The relays behind the items of `inbound_data`

Each item is kept together with the relay that has put it. The frames about connections are those of
the items taken, in their order. -/

namespace PortPort
open Server (ManagerAction)
open Relay (RelayAction)

namespace Relay
variable {own : Prop} {r r' : Relay} {closeReq : Bool} {a : RelayAction}
  {puts : List (Nat × QueuedRelayMessage)}

theorem step_items (hI : r.Inv own) (h : r.step closeReq a = some (r', puts)) :
    ∀ x ∈ puts, ItemOk r.identifyingPort x.2 := by
  by_cases haccept : ∃ addr, a = .accept (.ok addr)
  · obtain ⟨addr, rfl⟩ := haccept
    cases step_moves h with
    | accepts _ hport =>
      intro x hx
      rw [List.mem_singleton.mp hx]
      exact ⟨hport, rfl, nofun, fun _ => rfl⟩
  · exact (step_reported hI (fun addr ha => absurd ⟨addr, ha⟩ haccept) h).items

/-- The thread has ended. -/
def Terminated (r : Relay) : Prop := r.phase = .closed ∨ ∃ e, r.phase = .crashed e

theorem Terminated.step (h : r.Terminated) : r.step closeReq a = none := by
  rcases h with hp | ⟨e, hp⟩
  · simp only [Relay.step, hp]
  · simp only [Relay.step, hp]

end Relay

namespace Server
variable {s s' : Server}

theorem joined_iff {rid : Nat} : s.joined rid = true ↔ (s.relay rid).Terminated := by
  unfold joined Relay.Terminated
  split
  · simp_all
  · simp_all
  · simp_all

/-- What each relay keeps to, and each item. -/
structure Fit (s : Server) : Prop where
  inv : i < s.nrelays → (s.relay i).Inv False
  staged : i < s.nrelays → (s.relay i).Staged
  port : i < s.nrelays → 0 ≤ (s.relay i).identifyingPort ∧ (s.relay i).identifyingPort < 65536
  items : q ∈ s.mgr.inboundData → WellFormed (Manager.frameOf q)

theorem Fit.congr (h : s.Fit) (hr : s'.relay = s.relay) (hn : s'.nrelays = s.nrelays)
    (hi : s'.mgr.inboundData = s.mgr.inboundData) : s'.Fit where
  inv hlt := hr ▸ h.inv (hn ▸ hlt)
  staged hlt := hr ▸ h.staged (hn ▸ hlt)
  port hlt := hr ▸ h.port (hn ▸ hlt)
  items hq := h.items (hi ▸ hq)

theorem Fit.relayMoved {rid : Nat} {a : RelayAction} {r : Relay}
    {puts : List (Nat × QueuedRelayMessage)} (h : s.Fit) (hrid : rid < s.nrelays)
    (hr : (s.relay rid).step s.closeService a = some (r, puts)) :
    (s.relayMoved rid r puts).Fit := by
  have hcases {P : Relay → Prop} {i : Nat} (hself : P r) (hother : P (s.relay i)) :
      P ((s.relayMoved rid r puts).relay i) := by
    by_cases hi : i = rid
    · rw [hi, relayMoved_self]
      exact hself
    · rw [relayMoved_other hi]
      exact hother
  refine ⟨fun hi => ?_, fun hi => ?_, fun hi => ?_, fun {q} hq => ?_⟩
  · exact hcases ((h.inv hrid).step nofun hr) (h.inv hi)
  · exact hcases ((h.staged hrid).step (h.inv hrid) hr) (h.staged hi)
  · exact hcases (P := fun r => 0 ≤ r.identifyingPort ∧ r.identifyingPort < 65536)
      ((Relay.step_socket hr).port ▸ h.port hrid) (h.port hi)
  · rcases List.mem_append.mp hq with hq | hq
    · exact h.items hq
    · obtain ⟨x, hx, rfl⟩ := List.mem_map.mp hq
      exact (Relay.step_items (h.inv hrid) hr x hx).wellFormed (h.port hrid)

theorem Fit.mgrStep {a : ManagerAction} (h : s.Fit) (hs : s.mgrStep a = some s') : s'.Fit where
  inv hi := by
    refine mgrStep_relays hs hi (fun hlt _ _ _ _ => ?_) fun p _ _ => RelayRun.Inv.start False p
    have hinv := h.inv hlt
    exact { hinv with }
  staged hi := mgrStep_relays hs hi (fun hlt _ _ _ _ => h.staged hlt) fun _ _ _ => rfl
  port hi := by
    apply mgrStep_relays (P := fun r => 0 ≤ r.identifyingPort ∧ r.identifyingPort < 65536) hs hi
    · exact fun hlt _ _ _ _ => h.port hlt
    · exact fun p hpos hmax => ⟨Int.le_of_lt hpos, hmax⟩
  items {q} hq := by
    rcases mgrStep_unmarked hs (fun _ hq => h.items hq) with ⟨-, hi⟩ | ⟨q', left, -, hi, -⟩
    · exact h.items (hi ▸ hq)
    · exact h.items (hi ▸ List.mem_cons_of_mem _ hq)

/-- The thread of the relay has ended. -/
def Gone (s : Server) (rid : Nat) : Prop := rid < s.nrelays ∧ (s.relay rid).Terminated

/-- What the steps keep of the relays. -/
structure Grows (s s' : Server) : Prop where
  nrelays : s.nrelays ≤ s'.nrelays
  port : i < s.nrelays → (s'.relay i).identifyingPort = (s.relay i).identifyingPort
  gone : s.Gone i → s'.Gone i
  enqueued : q ∈ s.enqueued i → q ∈ s'.enqueued i

theorem Grows.refl (s : Server) : Grows s s := ⟨Nat.le_refl _, fun _ => rfl, id, id⟩

theorem Grows.trans {s'' : Server} (h : Grows s s') (h' : Grows s' s'') : Grows s s'' where
  nrelays := h.nrelays.trans h'.nrelays
  port hi := (h'.port (hi.trans_le h.nrelays)).trans (h.port hi)
  gone hi := h'.gone (h.gone hi)
  enqueued hq := h'.enqueued (h.enqueued hq)

theorem mgrStep_grows {a : ManagerAction} (h : s.mgrStep a = some s') : Grows s s' := by
  obtain ⟨hn, hkept⟩ := mgrStep_relaysKept h
  refine ⟨hn, fun {i} hi => ?_, fun {i} hi => ?_, fun {i q} hq => ?_⟩
  · obtain ⟨_, _, _, _, hr⟩ := hkept i hi
    rw [hr]
  · obtain ⟨_, _, _, _, hr⟩ := hkept i hi.1
    refine ⟨hi.1.trans_le hn, ?_⟩
    rw [hr]
    exact hi.2
  · rw [(mgrStep_made h).enqueued]
    exact hq

theorem relayMoved_grows {rid : Nat} {a : RelayAction} {r : Relay}
    {puts : List (Nat × QueuedRelayMessage)}
    (hr : (s.relay rid).step s.closeService a = some (r, puts)) :
    Grows s (s.relayMoved rid r puts) := by
  refine ⟨Nat.le_refl _, fun {i} _ => ?_, fun {i} hi => ?_, fun {i q} hq => ?_⟩
  all_goals by_cases hne : i = rid
  · rw [hne, relayMoved_self, (Relay.step_socket hr).port]
  · rw [relayMoved_other hne]
  · cases (hne ▸ hi.2).step.symm.trans hr
  · exact ⟨hi.1, (relayMoved_other hne).symm ▸ hi.2⟩
  · rw [hne, enqueued_self]
    exact List.mem_append_left _ (hne ▸ hq)
  · rwa [enqueued_other hne]

end Server

namespace ManagerRun

theorem step_fit {s s' : ManagerRun} {e : Event} (h : s.server.Fit) (hs : step s e = some s') :
    s'.server.Fit := by
  cases e with
  | thread a =>
    obtain ⟨server, hserver, rfl⟩ := Option.map_eq_some_iff.mp hs
    exact h.mgrStep hserver
  | relay rid a =>
    obtain ⟨⟨server, puts⟩, hserver, rfl⟩ := Option.map_eq_some_iff.mp hs
    obtain ⟨hrid, -, r, hr, rfl⟩ := Server.relayStep_cases hserver
    exact (h.relayMoved hrid hr).congr rfl rfl rfl
  | wakeup =>
    simp only [step, Option.ite_none_right_eq_some, Option.some.injEq] at hs
    obtain ⟨-, rfl⟩ := hs
    exact h.congr rfl rfl rfl
  | shutdown =>
    cases hs
    exact h.congr rfl rfl rfl

end ManagerRun

/-- The frame is about a connection. -/
def aboutConn (f : PortPortMessage) : Bool := (frameMark f.msgType).isSome

theorem filter_aboutConn_nil {fs : List PortPortMessage}
    (h : ∀ f ∈ fs, frameMark f.msgType = none) : fs.filter aboutConn = [] := by
  refine List.filter_eq_nil_iff.mpr fun f hf => ?_
  rw [aboutConn, h f hf]
  exact Bool.false_ne_true

theorem aboutConn_frameOf (q : QueuedRelayMessage) : aboutConn (Manager.frameOf q) = true := by
  rw [aboutConn, frameMark_frameOf]
  rfl

/-- The management thread among the relays, with the relay behind each item. -/
structure OwnedRun where
  run : ManagerRun
  /-- the items of `inbound_data`, each with the relay that has put it -/
  queue : List (Nat × QueuedRelayMessage) := []
  /-- the items whose frames have been appended to `sendq` -/
  sent : List (Nat × QueuedRelayMessage) := []

namespace OwnedRun
open ManagerRun (Event setWakeup)

def server (s : OwnedRun) : Server := s.run.server

def log (s : OwnedRun) : List PortPortMessage := s.server.mgr.sendLog

/-- The items that the event puts on `inbound_data`. -/
def putBy (s s' : ManagerRun) : Event → List (Nat × QueuedRelayMessage)
  | .relay rid _ =>
    (s'.server.mgr.inboundData.drop s.server.mgr.inboundData.length).map fun q => (rid, q)
  | _ => []

def step (s : OwnedRun) (e : Event) : Option OwnedRun :=
  (s.run.step e).map fun run =>
    let taken := s.server.mgr.inboundData.length - run.server.mgr.inboundData.length
    { run
      queue := s.queue.drop taken ++ putBy s.run run e
      sent := s.sent ++ s.queue.take taken }

def Init (s : OwnedRun) : Prop := ManagerRun.Init s.run ∧ s.queue = [] ∧ s.sent = []

abbrev Reachable (P : OwnedRun → Event → Prop) : OwnedRun → Prop :=
  Transition.Reach (Transition.Fires step) P Init

abbrev Steps (P : OwnedRun → Event → Prop) : OwnedRun → OwnedRun → Prop :=
  Transition.Steps (Transition.Fires step) P

/-- What an event does to the queue and to the frames. -/
inductive Moves (s : OwnedRun) : Event → OwnedRun → Prop
  | answers (h : s.server.mgrStep a = some s'.server)
      (hi : s'.server.mgr.inboundData = s.server.mgr.inboundData) (hq : s'.queue = s.queue)
      (hs : s'.sent = s.sent) (hlog : s'.log = s.log ++ fs)
      (hfs : ∀ f ∈ fs, frameMark f.msgType = none) : Moves s (.thread a) s'
  | drains (h : s.server.mgrStep a = some s'.server) (hp : s.server.mgr.phase = .inboundLoop left)
      (hi : s.server.mgr.inboundData = x.2 :: s'.server.mgr.inboundData)
      (hq : s.queue = x :: s'.queue) (hs : s'.sent = s.sent ++ [x])
      (hlog : s'.log = s.log ++ [Manager.frameOf x.2]) : Moves s (.thread a) s'
  | puts (hrid : rid < s.server.nrelays)
      (hr : (s.server.relay rid).step s.server.closeService a = some (r, puts))
      (hs' : s'.server = setWakeup (s.server.relayMoved rid r puts) s.server.mgr.wakeupPending)
      (he : ∀ x ∈ puts, x.2 ∈ s'.server.enqueued rid)
      (hq : s'.queue = s.queue ++ puts.map fun x => (rid, x.2)) (hs : s'.sent = s.sent)
      (hlog : s'.log = s.log) :
      Moves s (.relay rid a) s'
  | rest (hr : s'.server.relay = s.server.relay) (hn : s'.server.nrelays = s.server.nrelays)
      (he : s'.server.enqueued = s.server.enqueued) (hp : s'.server.mgr.phase = s.server.mgr.phase)
      (hi : s'.server.mgr.inboundData = s.server.mgr.inboundData) (hq : s'.queue = s.queue)
      (hs : s'.sent = s.sent) (hlog : s'.log = s.log) : Moves s e s'

structure Sound (s : OwnedRun) : Prop where
  fit : s.server.Fit
  queue : s.queue.map Prod.snd = s.server.mgr.inboundData
  frames : s.log.filter aboutConn = s.sent.map fun x => Manager.frameOf x.2

variable {s s' : OwnedRun} {e : Event}

theorem step_moves (h : s.Sound) (hs : step s e = some s') : Moves s e s' := by
  obtain ⟨run, hrun, rfl⟩ := Option.map_eq_some_iff.mp hs
  have hsame (h : run.server.mgr.inboundData = s.server.mgr.inboundData) :
      s.server.mgr.inboundData.length - run.server.mgr.inboundData.length = 0 := by
    rw [h, Nat.sub_self]
  cases e with
  | thread a =>
    obtain ⟨server, hserver, rfl⟩ := Option.map_eq_some_iff.mp hrun
    have hunmarked := Server.mgrStep_unmarked hserver fun _ hq => h.fit.items hq
    rcases hunmarked with ⟨⟨fs, hlog, hfs⟩, hi⟩ | ⟨q, left, hp, hi, hlog⟩
    · refine .answers hserver hi ?_ ?_ hlog hfs
      · simp only [hsame hi, List.drop_zero, putBy, List.append_nil]
      · simp only [hsame hi, List.take_zero, List.append_nil]
    · have htaken : s.server.mgr.inboundData.length - server.mgr.inboundData.length = 1 := by
        have hlen := congrArg List.length hi
        rw [List.length_cons] at hlen
        exact (congrArg (· - _) hlen).trans (Nat.add_sub_cancel_left ..)
      have hqueue := h.queue.trans hi
      cases hx : s.queue with
      | nil =>
        rw [hx] at hqueue
        cases hqueue
      | cons x queue =>
        rw [hx, List.map_cons, List.cons.injEq] at hqueue
        obtain ⟨rfl, -⟩ := hqueue
        refine .drains hserver hp hi ?_ ?_ hlog
        · simp only [htaken, hx, List.drop_one, List.tail_cons, putBy, List.append_nil]
        · simp only [htaken, List.take_one, List.head?_cons, Option.toList_some]
  | relay rid a =>
    obtain ⟨⟨server, puts⟩, hserver, rfl⟩ := Option.map_eq_some_iff.mp hrun
    obtain ⟨hrid, -, r, hr, rfl⟩ := Server.relayStep_cases hserver
    have hi : (setWakeup (s.run.server.relayMoved rid r puts)
        s.run.server.mgr.wakeupPending).mgr.inboundData =
        s.run.server.mgr.inboundData ++ puts.map Prod.snd := rfl
    have htaken : s.server.mgr.inboundData.length -
        (s.run.server.mgr.inboundData ++ puts.map Prod.snd).length = 0 := by
      rw [List.length_append]
      exact Nat.sub_eq_zero_of_le (Nat.le_add_right ..)
    have henq : (s.run.server.relayMoved rid r puts).enqueued rid =
        s.run.server.enqueued rid ++ puts.map Prod.snd := Server.enqueued_self ..
    refine .puts hrid hr rfl (fun x hx => ?_) ?_ ?_ rfl
    · exact henq ▸ List.mem_append_right _ (List.mem_map_of_mem hx)
    · simp only [putBy, hi, htaken, List.drop_zero, List.drop_left, List.map_map]
      rfl
    · simp only [hi, htaken, List.take_zero, List.append_nil]
  | wakeup =>
    simp only [ManagerRun.step, Option.ite_none_right_eq_some, Option.some.injEq] at hrun
    obtain ⟨-, rfl⟩ := hrun
    refine .rest rfl rfl rfl rfl rfl ?_ ?_ rfl
    · simp only [hsame rfl, List.drop_zero, putBy, List.append_nil]
    · simp only [hsame rfl, List.take_zero, List.append_nil]
  | shutdown =>
    cases hrun
    refine .rest rfl rfl rfl rfl rfl ?_ ?_ rfl
    · simp only [hsame rfl, List.drop_zero, putBy, List.append_nil]
    · simp only [hsame rfl, List.take_zero, List.append_nil]

theorem Sound.init (h : Init s) : s.Sound := by
  obtain ⟨⟨portRange, hrun⟩, hqueue, hsent⟩ := h
  refine ⟨?_, ?_, ?_⟩
  · rw [server, hrun]
    exact ⟨fun hi => absurd hi (Nat.not_lt_zero _), fun hi => absurd hi (Nat.not_lt_zero _),
      fun hi => absurd hi (Nat.not_lt_zero _), nofun⟩
  · rw [server, hrun, hqueue]
    rfl
  · rw [log, server, hrun, hsent]
    rfl

theorem Sound.step (h : s.Sound) (hs : step s e = some s') : s'.Sound := by
  have hfit : s'.server.Fit := by
    obtain ⟨run, hrun, rfl⟩ := Option.map_eq_some_iff.mp hs
    exact ManagerRun.step_fit h.fit hrun
  cases step_moves h hs with
  | answers hmgr hi hq hs hlog hfs =>
    refine ⟨hfit, by rw [hq, h.queue, hi], ?_⟩
    rw [hlog, hs, List.filter_append, filter_aboutConn_nil hfs, List.append_nil, h.frames]
  | drains hmgr hp hi hq hs hlog =>
    refine ⟨hfit, ?_, ?_⟩
    · have hqueue := h.queue
      rw [hq, hi] at hqueue
      exact (List.cons.inj hqueue).2
    · rw [hlog, hs, List.filter_append, h.frames, List.map_append]
      refine congrArg _ (List.filter_eq_self.mpr fun f hf => ?_)
      rw [List.mem_singleton.mp hf]
      exact aboutConn_frameOf _
  | puts hrid hr hs' he hq hs hlog =>
    refine ⟨hfit, ?_, by rw [hlog, hs, h.frames]⟩
    rw [hq, hs', List.map_append, h.queue, List.map_map]
    rfl
  | rest hr hn he hp hi hq hs hlog =>
    exact ⟨hfit, by rw [hq, h.queue, hi], by rw [hlog, hs, h.frames]⟩

theorem Reachable.sound {P : OwnedRun → Event → Prop} (h : Reachable P s) : s.Sound :=
  h.invariant (fun _ => Sound.init) fun _ _ _ hI _ hs => hI.step hs

end OwnedRun
end PortPort
