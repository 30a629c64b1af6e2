import PortPort.Server.ManagerRun
import PortPort.Server.RelaySocket
import PortPort.System.RelayReports
import PortPort.System.Streams

/-! # What the management thread appends to `sendq`

The frames about connections are those of the items of `inbound_data`, in their order. Every other
frame is an answer to the client, and each relay is announced by one. -/

namespace PortPort
open Sessions (Mark)
open Server (ManagerAction)
open Relay (BindResult)

/-- What a frame says about the connection it names. -/
def frameMark : PortPortMessageType → Option Mark
  | .newConnection => some .start
  | .data => some .item
  | .closeConnection => some .stop
  | _ => none

/-- The marks of the frames about the address with this relay port. -/
def frameMarks (p : Int) (addr : Peer) (fs : List PortPortMessage) : List Mark :=
  fs.filterMap fun f => if f.relayPort = p ∧ (f.addr, f.port) = addr then frameMark f.msgType
    else none

theorem frameMarks_append (p : Int) (addr : Peer) (fs fs' : List PortPortMessage) :
    frameMarks p addr (fs ++ fs') = frameMarks p addr fs ++ frameMarks p addr fs' :=
  List.filterMap_append

theorem frameMarks_nil {p : Int} {addr : Peer} {fs : List PortPortMessage}
    (h : ∀ f ∈ fs, frameMark f.msgType = none) : frameMarks p addr fs = [] := by
  apply List.filterMap_eq_nil_iff.mpr
  intro f hf
  rw [h f hf, ite_self]

theorem frameMark_frameOf (q : QueuedRelayMessage) :
    frameMark (Manager.frameOf q).msgType = some (markOf q.kind) := by
  obtain ⟨kind, addr, port, data, relayPort⟩ := q
  cases kind <;> rfl

theorem frameOf_fields (q : QueuedRelayMessage) : (Manager.frameOf q).relayPort = q.relayPort ∧
    ((Manager.frameOf q).addr, (Manager.frameOf q).port) = q.peer := by
  obtain ⟨kind, addr, port, data, relayPort⟩ := q
  cases kind <;> exact ⟨rfl, rfl⟩

theorem frameMarks_frameOf {p p' : Int} (addr : Peer) {qs : List QueuedRelayMessage}
    (h : ∀ q ∈ qs, q.relayPort = p') :
    frameMarks p addr (qs.map Manager.frameOf) = if p' = p then marks addr qs else [] := by
  induction qs with
  | nil => simp [frameMarks, marks]
  | cons q qs ih =>
    have ih := ih fun q hq => h q (List.mem_cons_of_mem _ hq)
    have hq := h q List.mem_cons_self
    obtain ⟨hp, hpeer⟩ := frameOf_fields q
    simp only [frameMarks, marks] at ih ⊢
    rw [List.map_cons, List.filterMap_cons, List.filterMap_cons, ih, hp, hpeer, hq,
      frameMark_frameOf]
    by_cases hpp : p' = p
    · by_cases ha : q.peer = addr <;> simp [hpp, ha]
    · simp [hpp]

/-! ## Answers -/

/-- The thread has appended no frame about a connection, and has taken no item. -/
structure Unmarked (s s' : Server) : Prop where
  sendLog : ∃ fs, s'.mgr.sendLog = s.mgr.sendLog ++ fs ∧ ∀ f ∈ fs, frameMark f.msgType = none
  inboundData : s'.mgr.inboundData = s.mgr.inboundData

namespace Server
variable {s s' : Server}

theorem unmarked_of_eq (hl : s'.mgr.sendLog = s.mgr.sendLog)
    (hi : s'.mgr.inboundData = s.mgr.inboundData) : Unmarked s s' :=
  ⟨⟨[], by rw [hl, List.append_nil], List.forall_mem_nil _⟩, hi⟩

theorem Replies.unmarked {m : Manager} {fs : List PortPortMessage}
    (h : Replies (s.withMgr m) fs s') (hl : m.sendLog = s.mgr.sendLog)
    (hi : m.inboundData = s.mgr.inboundData) (hfs : ∀ f ∈ fs, frameMark f.msgType = none) :
    Unmarked s s' :=
  ⟨⟨fs, by rw [h.sendLog, withMgr_mgr, hl], hfs⟩, h.inboundData.trans hi⟩

theorem frameMark_error {f : PortPortMessage} (h : f.msgType = .error) :
    frameMark f.msgType = none := by
  rw [h]
  rfl

/-- A step of the thread either appends answers, or the frame of the next item. -/
theorem mgrStep_unmarked {a : ManagerAction} (h : s.mgrStep a = some s')
    (hok : ∀ q ∈ s.mgr.inboundData, WellFormed (Manager.frameOf q)) :
    Unmarked s s' ∨ ∃ q left, s.mgr.phase = .inboundLoop left ∧
      s.mgr.inboundData = q :: s'.mgr.inboundData ∧
        s'.mgr.sendLog = s.mgr.sendLog ++ [Manager.frameOf q] := by
  cases mgrStep_moves h with
  | clientIo =>
    have hmoved := s.mgr.handleRelayClient_moved
    exact .inl (unmarked_of_eq (hmoved ..).sendLog (hmoved ..).inboundData)
  | takes _ _ _ hmsg =>
    cases hmsg with
    | replies hr hfs => exact .inl (hr.unmarked rfl rfl fun f hf => frameMark_error (hfs f hf))
    | _ => exact .inl (unmarked_of_eq rfl rfl)
  | refuses _ _ hr hfs => exact .inl (hr.unmarked rfl rfl fun f hf => frameMark_error (hfs f hf))
  | announces _ hr hfs =>
    refine .inl (hr.unmarked rfl rfl fun f hf => ?_)
    rcases hfs f hf with rfl | he
    · rfl
    · exact frameMark_error he
  | destroys _ _ hr hfs =>
    refine .inl (hr.unmarked rfl rfl fun f hf => ?_)
    rcases hfs f hf with rfl | he
    · rfl
    · exact frameMark_error he
  | @drains left hp =>
    have hdrains := s.mgr.inboundTurn_drains left
    generalize s.mgr.inboundTurn left = m at hdrains h ⊢
    cases hdrains with
    | ends => exact .inl (unmarked_of_eq rfl rfl)
    | sends hl hi hm =>
      obtain ⟨data, writeEnabled, mask, -, rfl⟩ := Manager.send_sent hm
      exact .inr ⟨_, left, hp, hi, rfl⟩
    | fails hi hm =>
      obtain ⟨m, hsent, -⟩ := Manager.send_wellFormed (hok _ (hi ▸ List.mem_cons_self))
      cases hsent.symm.trans hm
  | _ => exact .inl (unmarked_of_eq rfl rfl)

end Server

/-! ## New relays -/

/-- The thread has made no relay, or one that it has still to announce. -/
structure Made (s s' : Server) : Prop where
  enqueued : s'.enqueued = s.enqueued
  made : s'.nrelays = s.nrelays ∨ s'.nrelays = s.nrelays + 1 ∧
    s'.mgr.phase = .creating s.nrelays ∧ ∃ p, 0 < p ∧ p < 65536 ∧
      s'.relay s.nrelays = { identifyingPort := p }

namespace Server
variable {s s' : Server}

theorem Replies.made {m : Manager} {fs : List PortPortMessage} (h : Replies (s.withMgr m) fs s') :
    Made s s' :=
  ⟨h.enqueued, .inl h.replied.nrelays⟩

theorem mgrStep_made {a : ManagerAction} (h : s.mgrStep a = some s') : Made s s' := by
  cases mgrStep_moves h with
  | takes _ hr _ hmsg =>
    cases hmsg with
    | creates _ hinit =>
      obtain ⟨p, hp, rfl⟩ := Relay.init_bound hinit
      have hp := List.all_eq_true.mp hr _ hp
      simp only [bindAllowed, Bool.and_eq_true, decide_eq_true_eq] at hp
      exact ⟨rfl, .inr ⟨rfl, rfl, p, hp.1.1, hp.1.2, Function.update_self ..⟩⟩
    | replies hr => exact hr.made
    | _ => exact ⟨rfl, .inl rfl⟩
  | refuses _ _ hr => exact hr.made
  | announces _ hr => exact hr.made
  | destroys _ _ hr => exact hr.made
  | _ => exact ⟨rfl, .inl rfl⟩

/-- What a step of the thread leaves of every relay and what holds of a new one, holds of every
relay behind it. -/
theorem mgrStep_relays {P : Relay → Prop} {a : ManagerAction} {i : Nat}
    (h : s.mgrStep a = some s') (hi : i < s'.nrelays)
    (hold : i < s.nrelays → ∀ outbound atomicClose wakeupPending woken,
      P { s.relay i with outbound, atomicClose, wakeupPending, woken })
    (hnew : ∀ p, 0 < p → p < 65536 → P { identifyingPort := p }) : P (s'.relay i) := by
  by_cases hlt : i < s.nrelays
  · obtain ⟨outbound, atomicClose, wakeupPending, woken, hr⟩ := (mgrStep_relaysKept h).2 i hlt
    rw [hr]
    exact hold hlt ..
  · rcases (mgrStep_made h).made with he | ⟨he, -, p, hpos, hmax, hr⟩
    · exact absurd (he ▸ hi) hlt
    · obtain rfl : i = s.nrelays := by omega
      rw [hr]
      exact hnew p hpos hmax

/-! ## Announcements -/

/-- The frame announces a relay with this port. -/
def Opens (p : Int) (f : PortPortMessage) : Prop := f.msgType = .openRelay ∧ f.relayPort = p

/-- The relay has closed and has put nothing on the queue. -/
def Mute (s : Server) (i : Nat) : Prop := (s.relay i).sck = .closed ∧ s.enqueued i = []

/-- Each relay has been announced, or the thread is about to announce it, or no frame will ever be
about it. -/
def Announced (s : Server) : Prop :=
  ∀ i < s.nrelays, (∃ f ∈ s.mgr.sendLog, Opens (s.relay i).identifyingPort f) ∨
    s.mgr.phase = .creating i ∨ s.Mute i

/-- The thread does not ask a relay for the port to announce whose listening socket is closed and
which has put messages on the queue. -/
def AsksOpen (s : Server) (a : ManagerAction) : Prop :=
  ∀ rid, s.mgr.phase = .creating rid → a = .turn →
    (s.relay rid).sck = .closed → s.enqueued rid = []

/-- The same of one relay, with the announcement among these frames. -/
def AnnouncedIn (s : Server) (fs : List PortPortMessage) (i : Nat) : Prop :=
  (∃ f ∈ fs, Opens (s.relay i).identifyingPort f) ∨ s.mgr.phase = .creating i ∨ s.Mute i

theorem mgrStep_announcedIn {a : ManagerAction} {fs gs : List PortPortMessage} {i : Nat}
    (h0 : i < s.nrelays → s.AnnouncedIn fs i) (ha : s.AsksOpen a) (hp : i < s.nrelays →
      0 ≤ (s.relay i).identifyingPort ∧ (s.relay i).identifyingPort < 65536)
    (hlog : s'.mgr.sendLog = s.mgr.sendLog ++ gs) (h : s.mgrStep a = some s')
    (hi : i < s'.nrelays) : s'.AnnouncedIn (fs ++ gs) i := by
  obtain ⟨-, hkept⟩ := mgrStep_relaysKept h
  by_cases hlt : i < s.nrelays
  · obtain ⟨_, _, _, _, hr⟩ := hkept i hlt
    have hport : (s'.relay i).identifyingPort = (s.relay i).identifyingPort := by rw [hr]
    have hmute (hm : s.Mute i) : s'.Mute i :=
      ⟨by rw [hr]; exact hm.1, (mgrStep_made h).enqueued ▸ hm.2⟩
    by_cases hph : s.mgr.phase = .creating i
    · cases a with
      | turn =>
        by_cases hsck : (s.relay i).sck = .closed
        · exact .inr (.inr (hmute ⟨hsck, ha i hph rfl hsck⟩))
        have hs' : s' = s.announce i := by
          simp only [mgrStep, hph, Option.some.injEq] at h
          exact h.symm
        rw [hs', announce_opens hsck (hp hlt)] at hlog
        refine .inl ⟨{ msgType := .openRelay, relayPort := (s.relay i).identifyingPort }, ?_, rfl,
          hport.symm⟩
        rw [← List.append_cancel_left hlog]
        exact List.mem_append_right _ (List.mem_singleton_self _)
      | _ =>
        simp only [mgrStep, hph] at h
        cases h
    · rcases h0 hlt with ⟨f, hf, ho⟩ | hc | hm
      · exact .inl ⟨f, List.mem_append_left _ hf, hport ▸ ho⟩
      · exact absurd hc hph
      · exact .inr (.inr (hmute hm))
  · rcases (mgrStep_made h).made with hn | ⟨hn, hph, -⟩
    · exact absurd (hn ▸ hi) hlt
    · rw [hn] at hi
      have hi : i = s.nrelays := by omega
      exact .inr (.inl (hi ▸ hph))

theorem mgrStep_announced {a : ManagerAction} (h0 : s.Announced) (ha : s.AsksOpen a)
    (hp : ∀ i < s.nrelays, 0 ≤ (s.relay i).identifyingPort ∧ (s.relay i).identifyingPort < 65536)
    (hlog : s.mgr.sendLog <+: s'.mgr.sendLog) (h : s.mgrStep a = some s') : s'.Announced := by
  obtain ⟨gs, hgs⟩ := hlog
  intro i hi
  have hin : s'.AnnouncedIn (s.mgr.sendLog ++ gs) i :=
    mgrStep_announcedIn (fun hlt => h0 i hlt) ha (hp i) hgs.symm h hi
  rw [hgs] at hin
  exact hin

end Server
end PortPort
