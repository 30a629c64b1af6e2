import PortPort.System.Agreement

/-! # Connections that use an address again

A message names its connection by the address alone, so one that the client sent for an earlier
connection hits a later one with the same address, unless the earlier one had fallen silent before
the later one was accepted. -/

namespace PortPort
open Tunnel (State Msg)

/-- A message about the connection `m` has touched no other: nothing was appended to the `sendq`
of another connection and no other connection left the table. -/
def OnlyTouches (m : Nat) (r r' : Relay) : Prop :=
  ∀ n, n ≠ m → (r'.conns n).sendq = (r.conns n).sendq ∧
    ∀ k, r.connectionTable.lookup k = some n → r'.connectionTable.lookup k = some n

namespace System

/-- The client is silent about the address: no message about it is on its way to the relay, the
local sockets that had it are closed, and nothing on its way to the local proxy opens another or
will be answered by a close. -/
structure QuietPeer (s : System) (addr : Peer) : Prop where
  up : ∀ q ∈ s.towardsRelay, q.peer ≠ addr
  closed : ∀ n ∈ s.proxy.created, (s.proxy.conns n).addr = addr →
    (s.proxy.conns n).sck.isOpen = false
  down : ∀ q ∈ s.towardsProxy, q.peer = addr →
    q.kind ≠ .newConnection ∧ (q.kind = .message → addr ∈ s.proxy.connections.keys)

instance (s : System) (addr : Peer) : Decidable (QuietPeer s addr) :=
  decidable_of_iff ((∀ q ∈ s.towardsRelay, q.peer ≠ addr) ∧
    (∀ n ∈ s.proxy.created, (s.proxy.conns n).addr = addr → (s.proxy.conns n).sck.isOpen = false) ∧
    ∀ q ∈ s.towardsProxy, q.peer = addr →
      q.kind ≠ .newConnection ∧ (q.kind = .message → addr ∈ s.proxy.connections.keys))
    ⟨fun ⟨h₁, h₂, h₃⟩ => ⟨h₁, h₂, h₃⟩, fun ⟨h₁, h₂, h₃⟩ => ⟨h₁, h₂, h₃⟩⟩

end System

theorem Models.quiet {A : State Peer UInt8 → Peer → Prop} {own : Prop} {p : Int} {s : System}
    {t : State Peer UInt8} {addr : Peer} (h : Models A own p s t) (hq : s.QuietPeer addr) :
    Tunnel.Quiet t addr := by
  obtain ⟨fd, qs, hS, hC, hD, hU⟩ := h.refines
  have hf := Tunnel.Reachable.followed h.reachable
  have hn := Tunnel.Reachable.numbered h.reachable
  have hup := System.towardsRelay_eq ⟨Int.le_of_lt h.port.1, h.port.2⟩ hU
  constructor
  · intro m msg hm hk
    obtain ⟨q, hmem, rfl⟩ := hU.carries.exists_item (List.mem_append_left _ hm)
    exact hq.up q (hup ▸ hmem) ((msgOf_key q).symm.trans hk)
  · have hdown (hl : t.Hears) : s.towardsProxy = s.downItems fd :=
      System.towardsProxy_eq hD (not_not.mp (mt hC.far.deaf.mpr hl.2))
    have hopened (hl : t.Hears) {m : Nat} : (m, .opened addr) ∉ t.down := by
      intro hm
      obtain ⟨q, hmem, hmsg⟩ := hD.carries.exists_item hm
      have hpeer : q.peer = addr := (msgOf_key q).symm.trans (by rw [hmsg]; rfl)
      have hkind := (hq.down q (hdown hl ▸ hmem) hpeer).1
      cases hk : q.kind with
      | newConnection => exact hkind hk
      | message | closeConnection => simp [msgOf, hk] at hmsg
    rintro m (⟨ho, hk⟩ | ⟨hl, hm | ⟨⟨bs, hm⟩, hne⟩⟩)
    · obtain ⟨hc, hopen⟩ := (hC.far.farOpen m).mp ho
      have haddr : (s.proxy.conns m).addr = addr := (hC.far.key hc).2.symm.trans hk
      have hclosed : (s.client.proxy.conns m).sck.isOpen = false := hq.closed m hc haddr
      rw [hopen] at hclosed
      cases hclosed
    · exact hopened hl hm
    · obtain ⟨q, hmem, hmsg⟩ := hD.carries.exists_item hm
      have hpeer : q.peer = addr := (msgOf_key q).symm.trans (by rw [hmsg]; rfl)
      have hkey := (hq.down q (hdown hl ▸ hmem) hpeer).2
      cases hk : q.kind with
      | newConnection | closeConnection => simp [msgOf, hk] at hmsg
      | message =>
        -- the entry is that of the connection known, and so is the data
        obtain ⟨x, hx⟩ := Option.isSome_iff_exists.mp
          (AList.lookup_isSome.mpr (AList.mem_keys.mpr (hkey hk)))
        have hfar : t.farTab addr = some x := (hC.far.farTab addr).trans hx
        have hknown := (Tunnel.known_or_opened (hf addr) hm).resolve_right (hopened hl)
        rw [hn.farTab hfar] at hknown
        exact hne (hfar.trans hknown)

/-! ## The message that the relay takes -/

theorem OnlyTouches.of_frame {m : Nat} {r r' : Relay} (hc : r'.connectionTable = r.connectionTable)
    (hs : ∀ n, n ≠ m → (r'.conns n).sendq = (r.conns n).sendq) : OnlyTouches m r r' :=
  fun n hn => ⟨hs n hn, fun _ hl => hc ▸ hl⟩

/-- What the handling of a message touches is what the table has under its address. -/
theorem Relay.handleOutbound_onlyTouches {own : Prop} {r : Relay} {q : QueuedRelayMessage} {m : Nat}
    (hI : r.Inv own) (h : ∀ c, r.connectionTable.lookup q.peer = some c → c = m) :
    OnlyTouches m r (r.handleOutbound q).state := by
  unfold Relay.handleOutbound
  split
  · exact .of_frame rfl fun _ _ => rfl
  rename_i c hl
  obtain rfl := h c hl
  split
  · have hset : ∀ n, n ≠ c → ((r.setConn c { r.conns c with
        sendq := (r.conns c).sendq ++ q.data, writeEnabled := true }).conns n).sendq =
          (r.conns n).sendq := fun n hn => by
      simp [Relay.setConn, hn]
    simp only
    split
    · exact .of_frame rfl hset
    · obtain ⟨r', hr', hf, hconns⟩ := Relay.Frame.modify (r := r.setConn c { r.conns c with
        sendq := (r.conns c).sendq ++ q.data, writeEnabled := true }) .rw (hI.entry hl).2.2.1
      rw [hr']
      exact .of_frame hf.connectionTable fun n hn => by rw [hconns]; exact hset n hn
  · rw [Relay.cleanUpConnection_eq hI hl]
    refine fun n hn => ⟨by simp [Relay.removed, hn], fun k hk => ?_⟩
    have hne : k ≠ q.peer := fun he => hn (Option.some.inj ((he ▸ hk).symm.trans hl))
    simpa [Relay.removed, Dict.lookup_erase, hne] using hk
  · exact .of_frame rfl fun _ _ => rfl

theorem Relay.afterOutbound_onlyTouches {m : Nat} {r : Relay} {out : Outcome Relay}
    (h : OnlyTouches m r out.state) : OnlyTouches m r (Relay.afterOutbound out) := by
  unfold Relay.afterOutbound
  split <;> exact h

/-- **Addresses used again**: in every run whose accepts return only addresses about which the
client is silent, a message that the relay takes touches no connection but the one the client sent
it for. -/
theorem System.reuse_onlyTouches {s s' : System} {q : QueuedRelayMessage}
    {rest : List QueuedRelayMessage} {m : Nat}
    (h : System.Reachable (System.OnAccept System.QuietPeer) s) (hp : s.relay.phase = .drain)
    (ho : s.relay.outbound = q :: rest) (hm : s.upTags.head? = some m)
    (hs : System.step s (.relay .turn) = some s') : OnlyTouches m s.relay s'.relay := by
  obtain ⟨p, t, hmod⟩ : ∃ p t, Models Tunnel.Quiet False p s t := System.Reachable.models
    (fun _ _ _ _ hmod hP => hmod.quiet (hP _ rfl)) (fun h => h.elim) h
  have hunmixed := Tunnel.Reachable.unmixed (fun _ _ h => h) hmod.reachable
  obtain ⟨fd, qs, hS, hC, hD, hU⟩ := hmod.refines
  obtain ⟨r, puts, hr, rfl⟩ := System.relayStep_cases hs
  have hr0 : (s.server.relayMoved 0 r puts).relay 0 = r := by simp
  simp only [System.relay, hr0]
  rcases Relay.step_drain hp hr with ⟨rfl, -⟩ | ⟨q', rest', ho', -, -, rfl, -⟩
  · exact .of_frame rfl fun _ _ => rfl
  · obtain ⟨rfl, rfl⟩ := List.cons.inj (ho'.symm.trans ho)
    obtain ⟨-, x, up, hx, hup⟩ := hU.head ho
    obtain rfl : x = m := Option.some.inj (hx.symm.trans hm)
    have hI : ({ s.relay with outbound := rest' } : Relay).Inv False := { hS.inv with }
    refine Relay.afterOutbound_onlyTouches (Relay.handleOutbound_onlyTouches hI fun c hl => ?_)
    have hnear : t.nearTab q'.peer = some c := (hS.near.nearTab q'.peer).trans hl
    exact (hunmixed.up hnear (hup ▸ List.mem_cons_self) (msgOf_key q')).symm

namespace System

namespace Run

/-- A second connection from the address of one that has ended on both sides. -/
def usedAgain : List Action :=
  listen ++ accept peer ++ relayReads 0 [] ++ mgrSends 2 24 ++
    remoteReceives (frame .newConnection [] ++ frame .closeConnection []) 2 ++
    proxyHandles [(0, ⟨.ok 7, .ok ()⟩), (0, ⟨.ok 7, .ok ()⟩)] [] [] ++ accept peer ++
    mgrSends 1 12 ++
    remoteReceives (frame .newConnection []) 1 ++
    proxyHandles [(1, ⟨.ok 7, .ok ()⟩)] [(.conn 1, .r)] [⟨.ok [3], .ok 0⟩] ++
    remoteSends 1 17 ++ mgrReceives (frame .message [3]) 1 ++ relayWakes

/-- A second connection from the address of one whose last data is still on its way. -/
def usedTooSoon : List Action :=
  listen ++ accept peer ++ mgrSends 1 12 ++ remoteReceives (frame .newConnection []) 1 ++
    proxyHandles [(0, ⟨.ok 7, .ok ()⟩)] [(.conn 0, .r)] [⟨.ok [3], .ok 0⟩] ++ remoteSends 1 17 ++
    relayReads 0 [] ++ accept peer ++ mgrSends 2 24 ++ mgrReceives (frame .message [3]) 1 ++
    relayWakes

end Run

theorem usedAgain_onlyTouches :
    ∃ s s', run (onAccept QuietPeer) Run.usedAgain = some s ∧
      step s (.relay .turn) = some s' ∧ (s'.relay.conns 1).sendq = [3] ∧
      OnlyTouches 1 s.relay s'.relay := by
  obtain ⟨s, s', hs, hs', hx⟩ := exists_of_run (onAccept QuietPeer) Run.usedAgain (.relay .turn)
    (f := fun s s' => (s.relay.phase, s.relay.outbound, s.upTags.head?, (s'.relay.conns 1).sendq))
    (x := (.drain, [⟨.message, Run.peer.1, Run.peer.2, [3], 4000⟩], some 1, [3]))
    (by decide +kernel)
  simp only [Prod.mk.injEq] at hx
  obtain ⟨hp, ho, hm, hsendq⟩ := hx
  have hr := Reachable.of_run (P := OnAccept QuietPeer) (fun _ _ => onAccept_iff.mp) hs
  exact ⟨s, s', hs, hs', hsendq, reuse_onlyTouches hr hp ho hm hs'⟩

/-- The data of the earlier connection goes to the later one. -/
theorem usedTooSoon_confused :
    ¬ ∀ (s s' : System) (q : QueuedRelayMessage) (rest : List QueuedRelayMessage) (m : Nat),
      Reachable (fun _ _ => True) s → s.relay.phase = .drain → s.relay.outbound = q :: rest →
      s.upTags.head? = some m → step s (.relay .turn) = some s' →
      OnlyTouches m s.relay s'.relay := by
  intro h
  obtain ⟨s, s', hs, hs', hx⟩ := exists_of_run anyStep Run.usedTooSoon (.relay .turn)
    (f := fun s s' => (s.relay.phase, s.relay.outbound, s.upTags.head?,
      (s.relay.conns 1).sendq, (s'.relay.conns 1).sendq))
    (x := (.drain, [⟨.message, Run.peer.1, Run.peer.2, [3], 4000⟩], some 0, [], [3]))
    (by decide +kernel)
  simp only [Prod.mk.injEq] at hx
  obtain ⟨hp, ho, hm, hsendq, hsendq'⟩ := hx
  have ht := h s s' _ _ 0 (Reachable.of_run (fun _ _ _ => trivial) hs) hp ho hm hs' 1 (by decide)
  rw [hsendq, hsendq'] at ht
  cases ht.1

end System

end PortPort
