import PortPort.System.Reuse
import PortPort.System.SendQueues

/-! # Bytes that wait when a connection is closed

Neither loop sends what waits for a socket before it closes the socket for a close it has taken.
The close comes behind all the bytes, so nothing is lost exactly when, since the loop last took
data for the connection, a `send` has accepted all that it was offered. -/

namespace PortPort
open Tunnel (State)

namespace System

/-- The step closes the local socket of the connection `n`, which is neither done by the callback
of this socket nor by the clean-up behind the loop. -/
structure LocalCloses (s s' : System) (n : Nat) : Prop where
  created : n ∈ s.proxy.created
  opened : (s.proxy.conns n).sck.isOpen = true
  closed : (s'.proxy.conns n).sck.isOpen = false
  notOwn : ∀ mask events, s.proxy.phase ≠ .dispatch ((.conn n, mask) :: events)
  running : s.proxy.phase ≠ .closing

/-- The same for the socket of the external host. -/
structure ExternalCloses (s s' : System) (n : Nat) : Prop where
  accepted : n < s.relay.nconns
  opened : (s.relay.conns n).sck.isOpen = true
  closed : (s'.relay.conns n).sck.isOpen = false
  notOwn : ∀ mask events, s.relay.phase ≠ .dispatch ((.conn n, mask) :: events)
  running : s.relay.phase ≠ .closing

/-- The local socket has sent all that the external host's has received. -/
structure LocalFlushed (s : System) (n : Nat) : Prop where
  sent : (s.proxy.conns n).sck.sent = (s.relay.conns n).sck.received
  sendq : (s.proxy.conns n).sendq = []

/-- The external host's socket has sent all that the local one has received. -/
structure ExternalFlushed (s : System) (n : Nat) : Prop where
  sent : (s.relay.conns n).sck.sent = (s.proxy.conns n).sck.received
  sendq : (s.relay.conns n).sendq = []

/-- The connection of which the local proxy takes a close. -/
def localTaken (s : System) : Action → Option Nat
  | .proxy (.item ..) =>
    match s.proxy.toLocal with
    | q :: _ =>
      if q.kind = .closeConnection then s.proxy.connections.lookup q.peer else none
    | [] => none
  | _ => none

/-- The connection of which the relay takes a close. -/
def externalTaken (s : System) : Action → Option Nat
  | .relay .turn =>
    match s.relay.outbound with
    | q :: _ =>
      if s.relay.phase = .drain ∧ !s.server.closeService ∧ !s.relay.atomicClose ∧
          q.kind = .closeConnection then
        s.relay.connectionTable.lookup q.peer
      else none
    | [] => none
  | _ => none

/-- The address is in no table and the client is silent about it. -/
def UnusedPeer (s : System) (addr : Peer) : Prop := s.FreshPeer addr ∧ s.QuietPeer addr

instance (s : System) (addr : Peer) : Decidable (UnusedPeer s addr) :=
  inferInstanceAs (Decidable (_ ∧ _))

theorem Reachable.models_quiet {s : System} (h : Reachable (OnAccept UnusedPeer) s) :
    ∃ p t, Models Tunnel.Quiet True p s t :=
  Reachable.models (fun _ _ _ _ hm hP => hm.quiet (hP _ rfl).2)
    (fun _ _ _ _ _ _ hP => (hP _ rfl).1) h

/-! ## What closes a socket -/

/-- A close of the local socket that is not its own callback's is one the thread has taken, and
it leaves all bytes as they are. -/
theorem LocalCloses.takes {s s' : System} {a : Action} {n : Nat} (h : LocalCloses s s' n)
    (hs : step s a = some s') :
    (∃ k io q rest, a = .proxy (.item k io) ∧ s.proxy.toLocal = q :: rest ∧
      q.kind = .closeConnection ∧ s.proxy.connections.lookup q.peer = some n) ∧
      s'.relay = s.relay ∧
      s'.proxy.conns n = { s.proxy.conns n with sck := (s.proxy.conns n).sck.close } := by
  rcases step_proxy hs with hc | ⟨a', puts, rfl, hl, hrelay⟩
  · have := h.closed
    rw [hc, h.opened] at this
    cases this
  have hmove := LocalProxy.step_conn hl n
  have hopened := h.opened
  have hclosed := h.closed
  generalize hc : s.proxy.conns n = c at hmove hopened
  generalize hc' : s'.proxy.conns n = c' at hmove hclosed
  cases hmove with
  | same | pushed => cases hopened.symm.trans hclosed
  | made m io fd refused sck ha hn => exact absurd h.created hn
  | removed m rest k io ha hto hk hlook =>
    exact ⟨⟨k, io, m, rest, by rw [ha], hto, hk, hlook⟩, hrelay, rfl⟩
  | own mask events hp => exact absurd hp (h.notOwn mask events)
  | dropped hp => exact absurd hp h.running

theorem ExternalCloses.takes {own : Prop} {s s' : System} {a : Action} {n : Nat}
    (h : ExternalCloses s s' n) (hI : s.relay.Inv own) (hown : own) (hn : 0 < s.server.nrelays)
    (hs : step s a = some s') :
    (∃ q rest, a = .relay .turn ∧ s.relay.phase = .drain ∧ s.server.closeService = false ∧
      s.relay.atomicClose = false ∧ s.relay.outbound = q :: rest ∧
      q.kind = .closeConnection ∧ s.relay.connectionTable.lookup q.peer = some n) ∧
      s'.proxy = s.proxy ∧
      s'.relay.conns n = { s.relay.conns n with sck := (s.relay.conns n).sck.close } := by
  rcases step_relay hn hs with hc | ⟨a', puts, rfl, hl, hproxy⟩
  · have := h.closed
    rw [hc, h.opened] at this
    cases this
  have hmove := Relay.step_conn hl n
  have hopened := h.opened
  have hclosed := h.closed
  generalize hc : s.relay.conns n = c at hmove hopened
  generalize hc' : s'.relay.conns n = c' at hmove hclosed
  cases hmove with
  | same | pushed => cases hopened.symm.trans hclosed
  | accepted addr ha hn => exact absurd h.accepted (hn ▸ Nat.lt_irrefl _)
  | removed m rest hp ho hk hlook =>
    cases a' with
    | turn =>
      rcases Relay.step_drain hp hl with ⟨hr, -⟩ | ⟨m', rest', -, hcl, hat, -⟩
      · -- the loop has been left without taking a message
        have hclosed := h.closed
        rw [hr] at hclosed
        cases h.opened.symm.trans hclosed
      · exact ⟨⟨m, rest, rfl, hp, hcl, hat, ho, hk, hlook⟩, hproxy, rfl⟩
    | _ => simp [Relay.step, hp] at hl
  | own k mask events hp hk hnk =>
    -- the table has no other connection under the address of the open socket
    have hentry := hI.own hown (hI.dispatch hp List.mem_cons_self) hk
    obtain rfl : n = k := hnk.elim id fun he => Option.some.inj (he.symm.trans hentry)
    exact absurd hp (h.notOwn mask events)
  | dropped hp => exact absurd hp h.running

/-! ## Closes taken -/

section
variable {p : Int} {s s' : System} {a : Action} {t : State Peer UInt8} {n : Nat} {due : Nat → Bool}

theorem localFlushed_iff (hm : Models Tunnel.Quiet True p s t) (hdue : Due due s.proxy.sendqs)
    (h : LocalCloses s s' n) (hs : step s a = some s') : LocalFlushed s' n ↔ due n = false := by
  obtain ⟨⟨k, io, q, rest, rfl, hto, hk, hlook⟩, hrelay, hconn⟩ := h.takes hs
  obtain ⟨left, q', rest', hphase, hto', htag, -⟩ := item_cases hs
  obtain ⟨rfl, rfl⟩ := List.cons.inj (hto'.symm.trans hto)
  obtain ⟨fd, qs, hS, hC, hD, hU⟩ := hm.refines
  have hpend := hC.ok.pending_eq (by simp [show s.client.proxy.phase = _ from hphase])
  obtain ⟨-, down, hd⟩ := hD.head (hpend.trans hto) htag
  have hd : t.down = (k, .closed q'.peer) :: down := by simpa [tagged, msgOf, hk] using hd
  have hsent := Tunnel.Reachable.sent_closed hm.reachable hd ((hC.far.farTab _).trans hlook)
  rw [hS.near.ends, hC.far.ends] at hsent
  have hsent : (s.relay.conns n).sck.received =
      (s.proxy.conns n).sck.sent ++ (s.proxy.conns n).sendq := hsent
  have hq : (s'.proxy.conns n).sendq = (s.proxy.conns n).sendq := by rw [hconn]
  have hnone : due n = false ↔ (s.proxy.conns n).sendq = [] := hdue.eq_false n
  rw [hnone, ← hq]
  refine ⟨LocalFlushed.sendq, fun h => ⟨?_, h⟩⟩
  rw [hrelay, hsent, ← hq, h, List.append_nil, hconn]
  rfl

theorem externalFlushed_iff (hm : Models Tunnel.Quiet True p s t) (hdue : Due due s.relay.sendqs)
    (h : ExternalCloses s s' n) (hs : step s a = some s') :
    ExternalFlushed s' n ↔ due n = false := by
  obtain ⟨fd, qs, hS, hC, hD, hU⟩ := hm.refines
  obtain ⟨⟨q, rest, rfl, -, -, -, ho, hk, hlook⟩, hproxy, hconn⟩ :=
    h.takes hS.inv trivial (hS.nrelays ▸ Nat.one_pos) hs
  obtain ⟨-, x, up, hx, hup⟩ := hU.head ho
  have hup : t.up = (x, .closed q.peer) :: up := by simpa [tagged, msgOf, hk] using hup
  have hret := Tunnel.Reachable.returned_closed (fun _ _ h => h) hm.reachable hup
    ((hS.near.nearTab _).trans hlook)
  rw [hS.near.ends, hC.far.ends] at hret
  have hret : (s.proxy.conns n).sck.received =
      (s.relay.conns n).sck.sent ++ (s.relay.conns n).sendq := hret
  have hq : (s'.relay.conns n).sendq = (s.relay.conns n).sendq := by rw [hconn]
  have hnone : due n = false ↔ (s.relay.conns n).sendq = [] := hdue.eq_false n
  rw [hnone, ← hq]
  refine ⟨ExternalFlushed.sendq, fun h => ⟨?_, h⟩⟩
  rw [hproxy, hret, ← hq, h, List.append_nil, hconn]
  rfl

end

end System

namespace DueRun
open PortPort.System

/-- A close that is taken is about a connection for which nothing is due. -/
def findsNoneDue (g : DueRun) (a : Action) : Bool :=
  (g.sys.localTaken a).all (fun n => !g.localDue n) &&
    (g.sys.externalTaken a).all fun n => !g.externalDue n

theorem Reachable.models_quiet {P : DueRun → Action → Prop} {g : DueRun}
    (hP : ∀ g a, P g a → OnAccept UnusedPeer g.sys a) (h : Reachable P g) :
    ∃ p t, Models Tunnel.Quiet True p g.sys t :=
  System.Reachable.models_quiet (Reachable.system hP h)

/-- **Graceful close**: in every run whose accepts return only unused addresses, a socket that is
closed for a close taken has sent every byte exactly when, since data was last taken for the
connection, a `send` has accepted all that it was offered; so in every run whose closes come behind
such a `send`, no byte is lost. -/
theorem closes_flushed {g g' : DueRun} {a : Action} {n : Nat} (hs : g.step a = some g') :
    (Reachable (fun g a => OnAccept UnusedPeer g.sys a) g →
      (LocalCloses g.sys g'.sys n → (LocalFlushed g'.sys n ↔ g.localDue n = false)) ∧
      (ExternalCloses g.sys g'.sys n → (ExternalFlushed g'.sys n ↔ g.externalDue n = false))) ∧
    (Reachable (fun g a => OnAccept UnusedPeer g.sys a ∧ g.findsNoneDue a) g → g.findsNoneDue a →
      (LocalCloses g.sys g'.sys n → LocalFlushed g'.sys n) ∧
      (ExternalCloses g.sys g'.sys n → ExternalFlushed g'.sys n)) := by
  obtain ⟨hs, -⟩ := step_sys hs
  constructor
  · intro h
    obtain ⟨p, t, hm⟩ := Reachable.models_quiet (fun _ _ hP => hP) h
    have hrec := Reachable.recorded h
    exact ⟨fun hc => localFlushed_iff hm hrec.localDue hc hs,
      fun hc => externalFlushed_iff hm hrec.externalDue hc hs⟩
  · intro h hf
    obtain ⟨p, t, hm⟩ := Reachable.models_quiet (fun _ _ hP => hP.1) h
    have hrec := Reachable.recorded h
    obtain ⟨fd, qs, hS, -⟩ := hm.refines
    refine ⟨fun hc => (localFlushed_iff hm hrec.localDue hc hs).mpr ?_,
      fun hc => (externalFlushed_iff hm hrec.externalDue hc hs).mpr ?_⟩
    · obtain ⟨⟨k, io, q, rest, rfl, hto, hk, hlook⟩, -⟩ := hc.takes hs
      simpa [findsNoneDue, localTaken, externalTaken, hto, hk, hlook] using hf
    · obtain ⟨⟨q, rest, rfl, hp, hcl, hat, ho, hk, hlook⟩, -⟩ :=
        hc.takes hS.inv trivial (hS.nrelays ▸ Nat.one_pos) hs
      simpa [findsNoneDue, localTaken, externalTaken, hp, hcl, hat, ho, hk, hlook] using hf

end DueRun

namespace System
namespace Run

/-- The external host sends two bytes and ends; both are sent to the local service in time. -/
def localInTime : List Action :=
  listen ++ accept peer ++ relayReads 0 [1, 2] ++ relayReads 0 [] ++ mgrSends 3 42 ++
    remoteReceives (frame .newConnection [] ++ frame .message [1, 2]) 2 ++
    proxyHandles [(0, ⟨.ok 7, .ok ()⟩), (0, ⟨.ok 7, .ok ()⟩)] [(.conn 0, ⟨false, true⟩)]
      [⟨.error .blockingIo, .ok 2⟩] ++
    remoteReceives (frame .closeConnection []) 1 ++ [.proxy .turn]

/-- The same with the close in the batch that brings the two bytes. -/
def localTooSoon : List Action :=
  listen ++ accept peer ++ relayReads 0 [1, 2] ++ relayReads 0 [] ++ mgrSends 3 42 ++
    remoteReceives (frame .newConnection [] ++ frame .message [1, 2] ++
      frame .closeConnection []) 3 ++
    [.proxy .turn, .proxy (.item 0 ⟨.ok 7, .ok ()⟩), .proxy (.item 0 ⟨.ok 7, .ok ()⟩)]

/-- The local service sends a byte and ends; the byte is sent to the external host in time. -/
def externalInTime : List Action :=
  listen ++ accept peer ++ mgrSends 1 12 ++ remoteReceives (frame .newConnection []) 1 ++
    proxyHandles [(0, ⟨.ok 7, .ok ()⟩)] [(.conn 0, .r)] [⟨.ok [3], .ok 0⟩] ++
    [.proxy .turn, .proxy .turn, .proxy (.select [(.conn 0, .r)]), .proxy (.io ⟨.ok [], .ok 0⟩)] ++
    remoteSends 2 29 ++ mgrReceives (frame .message [3]) 1 ++ relayDrains 1 ++ relayWrites 0 1 ++
    mgrReceives (frame .closeConnection []) 1 ++ relayWakes

end Run

end System

namespace DueRun
open PortPort.System

/-- The test for the condition on the runs in which no byte is lost. -/
def flushTest (g : DueRun) (a : Action) : Bool := onAccept UnusedPeer g.sys a && g.findsNoneDue a

theorem Reachable.of_flushTest {as : List Action} {g : DueRun} (h : run flushTest as = some g) :
    Reachable (fun g a => OnAccept UnusedPeer g.sys a ∧ g.findsNoneDue a) g :=
  .of_run (fun _ _ ht => (Bool.and_eq_true_iff.mp ht).imp_left onAccept_iff.mp) h

theorem closesInTime_flushed :
    (∃ g g', run flushTest Run.localInTime = some g ∧
      g.step (.proxy (.item 0 ⟨.ok 7, .ok ()⟩)) = some g' ∧ LocalCloses g.sys g'.sys 0 ∧
      (LocalFlushed g'.sys 0 ↔ g.localDue 0 = false) ∧ LocalFlushed g'.sys 0) ∧
    ∃ g g', run flushTest Run.externalInTime = some g ∧
      g.step (.relay .turn) = some g' ∧ ExternalCloses g.sys g'.sys 0 ∧
      (ExternalFlushed g'.sys 0 ↔ g.externalDue 0 = false) ∧ ExternalFlushed g'.sys 0 := by
  constructor
  · obtain ⟨g, g', hg, hg', hx⟩ := exists_of_run flushTest Run.localInTime
      (.proxy (.item 0 ⟨.ok 7, .ok ()⟩))
      (f := fun g g' => (g.sys.proxy.created, (g.sys.proxy.conns 0).sck.isOpen,
        (g'.sys.proxy.conns 0).sck.isOpen, g.sys.proxy.phase,
        g.findsNoneDue (.proxy (.item 0 ⟨.ok 7, .ok ()⟩))))
      (x := ([0], true, false, .batch 5, true)) (by decide +kernel)
    simp only [Prod.mk.injEq] at hx
    obtain ⟨hcreated, hopened, hclosed, hphase, hfinds⟩ := hx
    have hc : LocalCloses g.sys g'.sys 0 :=
      ⟨by simp [hcreated], hopened, hclosed, by simp [hphase], by simp [hphase]⟩
    have hr := Reachable.of_flushTest hg
    exact ⟨g, g', hg, hg', hc,
      ((closes_flushed hg').1 (hr.mono fun _ _ hP => hP.1)).1 hc,
      ((closes_flushed hg').2 hr hfinds).1 hc⟩
  · obtain ⟨g, g', hg, hg', hx⟩ := exists_of_run flushTest Run.externalInTime (.relay .turn)
      (f := fun g g' => (g.sys.relay.nconns, (g.sys.relay.conns 0).sck.isOpen,
        (g'.sys.relay.conns 0).sck.isOpen, g.sys.relay.phase, g.findsNoneDue (.relay .turn)))
      (x := (1, true, false, .drain, true)) (by decide +kernel)
    simp only [Prod.mk.injEq] at hx
    obtain ⟨haccepted, hopened, hclosed, hphase, hfinds⟩ := hx
    have hc : ExternalCloses g.sys g'.sys 0 :=
      ⟨by simp [haccepted], hopened, hclosed, by simp [hphase], by simp [hphase]⟩
    have hr := Reachable.of_flushTest hg
    exact ⟨g, g', hg, hg', hc,
      ((closes_flushed hg').1 (hr.mono fun _ _ hP => hP.1)).2 hc,
      ((closes_flushed hg').2 hr hfinds).2 hc⟩

end DueRun

namespace System

/-- The close drops the bytes that wait. -/
theorem closesTooSoon_not_flushed :
    ¬ ∀ (s s' : System) (a : Action) (n : Nat), Reachable (fun _ _ => True) s →
      step s a = some s' → (LocalCloses s s' n → LocalFlushed s' n) ∧
        (ExternalCloses s s' n → ExternalFlushed s' n) := by
  intro h
  obtain ⟨s, s', hs, hs', hx⟩ := exists_of_run anyStep Run.localTooSoon
    (.proxy (.item 0 ⟨.ok 7, .ok ()⟩))
    (f := fun s s' => (s.proxy.created, (s.proxy.conns 0).sck.isOpen,
      (s'.proxy.conns 0).sck.isOpen, s.proxy.phase, (s'.proxy.conns 0).sendq))
    (x := ([0], true, false, .batch 3, [1, 2])) (by decide +kernel)
  simp only [Prod.mk.injEq] at hx
  obtain ⟨hcreated, hopened, hclosed, hphase, hsendq⟩ := hx
  have hc : LocalCloses s s' 0 :=
    ⟨by simp [hcreated], hopened, hclosed, by simp [hphase], by simp [hphase]⟩
  have hf := ((h s s' _ 0 (Reachable.of_run (fun _ _ _ => trivial) hs) hs').1 hc).sendq
  cases hsendq.symm.trans hf

end System
end PortPort
