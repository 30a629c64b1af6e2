import Mathlib.Data.Finset.Basic
import Mathlib.Data.Finset.Dedup
import PortPort.Client.LocalInterest
import PortPort.System.Refines

/-! # The tables of the relay and of the local proxy -/

namespace PortPort
open Tunnel (State Msg)

namespace System

/-! ## Messages in flight -/

/-- The items of the frames on a stream. -/
def itemsOn (stream : Bytes) : List QueuedRelayMessage :=
  (Framing.drain frames stream).1.filterMap itemOf

/-- The messages in flight towards the local proxy, the oldest first. -/
def towardsProxy (s : System) : List QueuedRelayMessage :=
  s.proxy.toLocal ++ itemsOn (s.client.remote.recvq ++ s.down ++ s.server.mgr.sendq) ++
    s.server.mgr.inboundData

/-- The messages in flight towards the relay, the oldest first. -/
def towardsRelay (s : System) : List QueuedRelayMessage :=
  s.relay.outbound ++ itemsOn (s.server.mgr.recvq ++ s.up ++ s.client.remote.sendq) ++
    s.client.remote.toRemoteProxy

/-- The keys of a table behind the messages that insert into it or delete from it. -/
def keysAfter (keys : Finset Peer) (items : List QueuedRelayMessage) : Finset Peer :=
  items.foldl (fun keys q =>
    match q.kind with
    | .newConnection => insert q.peer keys
    | .closeConnection => keys.erase q.peer
    | .message => keys) keys

/-- The keys of the local proxy's table when it has taken all that is in flight. -/
def proxyKeys (s : System) : Finset Peer :=
  keysAfter s.proxy.connections.keys.toFinset s.towardsProxy

theorem mem_keysAfter {addr : Peer} {keys : Finset Peer} {entry : Option Nat} {tags : List Nat}
    {items : List QueuedRelayMessage} {l : List (Nat × Msg Peer UInt8)} (h : Carries tags items l)
    (hk : addr ∈ keys ↔ entry.isSome) :
    addr ∈ keysAfter keys items ↔ (Tunnel.entryAfter addr entry l).isSome := by
  induction items generalizing keys entry tags l with
  | nil =>
    have hl : l = [] := by rw [h.eq, List.zip_nil_right]; rfl
    subst hl
    exact hk
  | cons q items ih =>
    obtain ⟨n, tags', l', rfl, rfl, h'⟩ := h.cons
    simp only [keysAfter, List.foldl_cons, Tunnel.entryAfter, tagged]
    refine ih h' ?_
    cases hq : q.kind with
    | newConnection | closeConnection =>
      by_cases ha : q.peer = addr
      · simp [Tunnel.enter, msgOf, hq, ha]
      · simp [Tunnel.enter, msgOf, hq, ha, hk, Ne.symm ha]
    | message => simpa [Tunnel.enter, msgOf, hq] using hk

theorem itemsOn_encode {fs : List PortPortMessage} {stream : Bytes} (hfs : ∀ m ∈ fs, WellFormed m)
    (h : stream = fs.flatMap encode) : itemsOn stream = fs.filterMap itemOf := by
  rw [itemsOn, h, Framing.drain_flatMap grabMsg?_encode hfs]

section
variable {own : Prop} {p : Int} {s : System} {t : State Peer UInt8}

theorem towardsProxy_eq {fd : List PortPortMessage} (h : DownStream p s t fd)
    (hlost : s.proxy.lost = none) : s.towardsProxy = s.downItems fd := by
  rw [towardsProxy, itemsOn_encode h.frames h.bytes, downItems, LocalProxy.pending_eq hlost]

theorem towardsRelay_eq {qs : List QueuedRelayMessage} (hp : 0 ≤ p ∧ p < 65536)
    (h : UpStream p s t qs) : s.towardsRelay = s.upItems qs := by
  have hq q (hq : q ∈ qs) : ItemOk p q := (h.items q (by simp [upItems, hq])).1
  have hfs : ∀ m ∈ qs.map Manager.frameOf, WellFormed m := by
    intro m hm
    obtain ⟨q, hq', rfl⟩ := List.mem_map.mp hm
    exact (hq q hq').wellFormed hp
  have hitems : (qs.map Manager.frameOf).filterMap itemOf = qs := by
    rw [List.filterMap_map]
    conv_rhs => rw [← List.filterMap_some (l := qs)]
    exact List.filterMap_congr fun q hq' => (hq q hq').itemOf_frameOf
  rw [towardsRelay, itemsOn_encode hfs h.bytes, hitems]
  rfl

theorem mem_proxyKeys_iff {A : State Peer UInt8 → Peer → Prop} (h : Models A own p s t)
    (hlost : s.proxy.lost = none) (addr : Peer) :
    addr ∈ s.proxyKeys ↔ (Tunnel.entryAfter addr (t.farTab addr) t.down).isSome := by
  obtain ⟨fd, qs, hS, hC, hD, hU⟩ := h.refines
  refine mem_keysAfter (towardsProxy_eq hD hlost ▸ hD.carries) ?_
  rw [hC.far.farTab, List.mem_toFinset, ← AList.mem_keys, ← AList.lookup_isSome]
  rfl

theorem Reachable.models_any {P : System → Action → Prop} (h : Reachable P s) :
    ∃ p t, Models (fun _ _ => True) False p s t :=
  Reachable.models (fun _ _ _ _ _ _ => trivial) (fun h => h.elim) h

/-- `socket()` returns a socket to the local proxy for every NEW_CONNECTION. -/
def SocketsMade (s : System) (a : Action) : Prop :=
  ∀ n io q rest, a = .proxy (.item n io) → s.proxy.toLocal = q :: rest → q.kind = .newConnection →
    ∃ fd, io.socket = .ok fd

/-- The test for `SocketsMade`. -/
def socketsMade (s : System) : Action → Bool
  | .proxy (.item _ io) =>
    s.proxy.toLocal.head?.all fun q => q.kind ≠ .newConnection || io.socket.toOption.isSome
  | _ => true

theorem SocketsMade.of_test {a : Action} (h : socketsMade s a = true) : SocketsMade s a := by
  rintro n io q rest rfl hq hk
  cases hs : io.socket with
  | ok fd => exact ⟨fd, rfl⟩
  | error e => simp [socketsMade, hq, hk, hs, Except.toOption] at h

theorem step_lost {s' : System} {a : Action} (hm : Models (fun _ _ => True) False p s t)
    (hP : SocketsMade s a) (hs : step s a = some s') (h : s.proxy.lost = none) :
    s'.proxy.lost = none := by
  cases a with
  | proxy a =>
    obtain ⟨-, l, puts, hl, rfl⟩ := proxyStep_cases hs
    obtain ⟨fd, qs, hS, hC, hD, hU⟩ := hm.refines
    have hpend : s.proxy.Pending := fun events n mask hp hmem =>
      ((hC.ok.ready hp).2 n mask hmem).2
    rcases (LocalProxy.step_change hpend hl).lost with hlost |
      ⟨n, q, rest, io, e, rfl, hq, hk, he⟩
    · exact hlost.trans h
    · obtain ⟨fd, hfd⟩ := hP n io q rest rfl hq hk
      cases he.symm.trans hfd
  | mgr a => rw [proxy, mgrStep_client hs]; exact h
  | relay a =>
    obtain ⟨r, puts, -, rfl⟩ := relayStep_cases hs
    exact h
  | remote a =>
    obtain ⟨toLocal, wakeupPending, hp⟩ := remoteStep_proxy hs
    rw [hp]
    exact h
  | serverShutdown | clientShutdown =>
    cases hs
    exact h

/-- No item is lost in a run in which every socket is made. -/
theorem Reachable.lost (h : Reachable SocketsMade s) : s.proxy.lost = none := by
  refine Transition.Reach.invariant_of (J := fun s => s.proxy.lost = none)
    (K := fun s => ∃ p t, Models _ False p s t) (fun _ h => Reachable.models_any h) ?_ ?_ h
  · rintro _ ⟨p, -, -, rfl⟩
    rfl
  · rintro s a s' ⟨p, t, hm⟩ hJ hP hs
    exact step_lost hm hP hs hJ

/-- **The two tables agree up to the messages in flight**: in every run in which the local proxy
gets a socket for every NEW_CONNECTION, an address in its table, once it has taken all that is in
flight towards it, is in the relay's table, and an address in the relay's table that is not is
closed by a message in flight towards the relay. -/
theorem tables_agree (h : Reachable SocketsMade s) (addr : Peer) :
    (addr ∈ s.proxyKeys → addr ∈ s.relay.connectionTable.keys) ∧
    (addr ∈ s.relay.connectionTable.keys → addr ∉ s.proxyKeys →
      ∃ q ∈ s.towardsRelay, q.kind = .closeConnection ∧ q.peer = addr) := by
  obtain ⟨p, t, hm⟩ := h.models_any
  have hagree := (Tunnel.Reachable.givenUp hm.reachable).agree
    (Tunnel.Reachable.followed hm.reachable) (Tunnel.Reachable.numbered hm.reachable) addr
  have hkeys := mem_proxyKeys_iff hm h.lost addr
  obtain ⟨fd, qs, hS, hC, hD, hU⟩ := hm.refines
  have hnear : addr ∈ s.relay.connectionTable.keys ↔ ∃ n, t.nearTab addr = some n := by
    rw [hS.near.nearTab, ← AList.mem_keys, ← AList.lookup_isSome, Option.isSome_iff_exists]
    rfl
  rw [hkeys, hnear]
  refine ⟨fun ha => ?_, fun ⟨n, hn⟩ ha => ?_⟩
  · obtain ⟨n, hn⟩ := Option.isSome_iff_exists.mp ha
    exact ⟨n, hagree.1 n hn⟩
  · obtain ⟨m, hmem⟩ := hagree.2 n hn (Option.not_isSome_iff_eq_none.mp ha)
    obtain ⟨q, hq, hmsg⟩ := hU.carries.exists_item hmem
    refine ⟨q, towardsRelay_eq ⟨Int.le_of_lt hm.port.1, hm.port.2⟩ hU ▸ hq, ?_⟩
    cases hq : q.kind with
    | closeConnection => exact ⟨rfl, by simpa [msgOf, hq] using hmsg⟩
    | newConnection | message => simp [msgOf, hq] at hmsg

end

namespace Run

/-- The local service refuses the connection, and the relay has not heard of it. -/
def refused : List Action :=
  listen ++ accept peer ++ mgrSends 1 12 ++ remoteReceives (frame .newConnection []) 1 ++
    proxyHandles [(0, ⟨.ok 7, .error .connectionRefused⟩)] [] []

end Run

theorem tables_agree_refused :
    ∃ s, run socketsMade Run.refused = some s ∧ Run.peer ∈ s.relay.connectionTable.keys ∧
      Run.peer ∉ s.proxyKeys ∧ ∃ q ∈ s.towardsRelay, q.kind = .closeConnection ∧
        q.peer = Run.peer := by
  have hx : (run socketsMade Run.refused).map (fun s =>
      decide (Run.peer ∈ s.relay.connectionTable.keys ∧ Run.peer ∉ s.proxyKeys)) = some true := by
    decide +kernel
  obtain ⟨s, hs, hkeys⟩ := Option.map_eq_some_iff.mp hx
  obtain ⟨hin, hout⟩ := of_decide_eq_true hkeys
  have hr := Reachable.of_run (P := SocketsMade) (fun _ _ => SocketsMade.of_test) hs
  exact ⟨s, hs, hin, hout, (tables_agree hr Run.peer).2 hin hout⟩

/-- The process has no descriptor left for the socket of the connection. -/
def Run.outOfDescriptors : List Action :=
  listen ++ accept peer ++ mgrSends 1 12 ++ remoteReceives (frame .newConnection []) 1 ++
    [.proxy .turn, .proxy (.item 0 ⟨.error (.other 24), .ok ()⟩)]

/-- The relay has the connection in its table, the local proxy will never have it, and nothing
closes it. -/
theorem outOfDescriptors_disagree : ¬ ∀ s : System,
    Reachable (OnAccept FreshPeer) s → s.server.closeService = false → s.client.close = false →
      ∀ addr ∈ s.relay.connectionTable.keys, addr ∉ s.proxyKeys →
        ∃ q ∈ s.towardsRelay, q.kind = .closeConnection ∧ q.peer = addr := by
  intro h
  have hx : (run (onAccept FreshPeer) Run.outOfDescriptors).map (fun s =>
      (decide (Run.peer ∈ s.relay.connectionTable.keys ∧ Run.peer ∉ s.proxyKeys),
        s.towardsRelay.isEmpty, s.server.closeService, s.client.close)) =
      some (true, true, false, false) := by
    decide +kernel
  obtain ⟨s, hs, hx⟩ := Option.map_eq_some_iff.mp hx
  simp only [Prod.mk.injEq, decide_eq_true_eq] at hx
  obtain ⟨⟨hin, hout⟩, hnone, hserver, hclient⟩ := hx
  have hr := Reachable.of_run (P := OnAccept FreshPeer) (fun _ _ => onAccept_iff.mp) hs
  obtain ⟨q, hq, -⟩ := h s hr hserver hclient Run.peer hin hout
  rw [List.isEmpty_iff.mp hnone] at hq
  cases hq

end System
end PortPort
