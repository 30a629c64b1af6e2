import PortPort.System.Refines

/-! # End-to-end integrity of the proxied streams -/

namespace PortPort
open Tunnel (State Unused)

/-! ## Runs in which every address is new -/

theorem Models.unused {own : Prop} {p : Int} {s : System} {t : State Peer UInt8} {addr : Peer}
    (h : Models Unused own p s t) (hnew : System.NewPeer s addr) : Unused t addr := by
  refine ⟨Tunnel.Reachable.numbered h.reachable, fun n hn => ?_⟩
  obtain ⟨fd, qs, hS, -⟩ := h.refines
  rw [hS.near.accepted] at hn
  rw [hS.near.key hn]
  exact hnew n hn

theorem Models.fresh_of_new {A : State Peer UInt8 → Peer → Prop} {own : Prop} {p : Int}
    {s : System} {t : State Peer UInt8} {addr : Peer} (h : Models A own p s t)
    (hnew : System.NewPeer s addr) : System.FreshPeer s addr := by
  obtain ⟨fd, qs, hS, -⟩ := h.refines
  cases hl : s.relay.connectionTable.lookup addr with
  | none => exact hl
  | some n =>
    have hn := hS.inv.entry hl
    exact absurd hn.2.1 (hnew n hn.1)

namespace System

theorem Reachable.models_unused {s : System} (h : Reachable (OnAccept NewPeer) s) :
    ∃ p t, Models Unused True p s t :=
  Reachable.models (fun _ _ _ _ hm hP => hm.unused (hP _ rfl))
    (fun _ _ _ _ _ hm hP => hm.fresh_of_new (hP _ rfl)) h

/-- **End-to-end integrity**: in every run in which `accept` never returns the same address twice,
a proxied connection has one socket at either end, and the bytes sent on each of the two are a
prefix of those received from the other. -/
theorem stream_integrity {s : System} (h : Reachable (OnAccept NewPeer) s) (n : Nat) :
    (n ∈ s.proxy.created →
      n < s.relay.nconns ∧ (s.proxy.conns n).addr = (s.relay.conns n).peer) ∧
    (∀ m < s.relay.nconns, n < s.relay.nconns →
      (s.relay.conns m).peer = (s.relay.conns n).peer → m = n) ∧
    (s.proxy.conns n).sck.sent <+: (s.relay.conns n).sck.received ∧
    (s.relay.conns n).sck.sent <+: (s.proxy.conns n).sck.received := by
  obtain ⟨p, t, hm⟩ := Reachable.models_unused h
  obtain ⟨fd, qs, hS, hC, -⟩ := hm.refines
  have hnum := Tunnel.Reachable.numbered hm.reachable
  obtain ⟨hdown, hup⟩ := Tunnel.Reachable.integrity (fun _ _ hu => hu.quiet) hm.reachable n
  rw [hS.near.ends, hC.far.ends] at hdown hup
  refine ⟨fun hn => ?_, fun m hm' hn hpeer => ?_, hdown, hup⟩
  · obtain ⟨hlt, hkey⟩ := hC.far.key hn
    have hlt : n < s.relay.nconns := hS.near.accepted ▸ hlt.trans_le hnum.announced_le
    exact ⟨hlt, hkey.symm.trans (hS.near.key hlt)⟩
  · refine Tunnel.Reachable.key_injective hm.reachable (hS.near.accepted ▸ hm')
      (hS.near.accepted ▸ hn) ?_
    rw [hS.near.key hm', hS.near.key hn]
    exact hpeer

namespace Run

/-- Two bytes are sent to the local service and one back. -/
def bothWays : List Action :=
  listen ++ accept peer ++ relayReads 0 [1, 2] ++ mgrSends 2 30 ++
    remoteReceives (frame .newConnection [] ++ frame .message [1, 2]) 2 ++
    proxyHandles [(0, ⟨.ok 7, .ok ()⟩), (0, ⟨.ok 7, .ok ()⟩)] [(.conn 0, .rw)] [⟨.ok [3], .ok 2⟩] ++
    remoteSends 1 17 ++ mgrReceives (frame .message [3]) 1 ++ relayDrains 1 ++ relayWrites 0 1

end Run

theorem stream_integrity_bothWays :
    ∃ s, run (onAccept NewPeer) Run.bothWays = some s ∧
      ((s.proxy.conns 0).sck.sent, (s.relay.conns 0).sck.sent) = ([1, 2], [3]) ∧
      (s.proxy.conns 0).sck.sent <+: (s.relay.conns 0).sck.received ∧
      (s.relay.conns 0).sck.sent <+: (s.proxy.conns 0).sck.received := by
  have hx : (run (onAccept NewPeer) Run.bothWays).map
      (fun s => ((s.proxy.conns 0).sck.sent, (s.relay.conns 0).sck.sent)) = some ([1, 2], [3]) := by
    decide +kernel
  obtain ⟨s, hs, hsent⟩ := Option.map_eq_some_iff.mp hx
  have hr := Reachable.of_run (P := OnAccept NewPeer) (fun _ _ => onAccept_iff.mp) hs
  exact ⟨s, hs, hsent, (stream_integrity hr 0).2.2⟩

end System
end PortPort
