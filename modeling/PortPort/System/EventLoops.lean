import PortPort.Server.ManagerWakeup
import PortPort.Server.RelayInterest
import PortPort.Client.RemoteWakeup
import PortPort.Client.LocalInterest
import PortPort.System.Basic

/-! # The event loops at `select`

What the management thread, the relay, the remote proxy thread and the local proxy thread leave
behind when they are about to call `select`: no message that nothing signals, no bytes that nothing
will send, and no interest in write events without bytes. -/

namespace PortPort
open System.Run (frame peer)

/-! ## Runs that leave work behind -/

/-- The management thread has announced a relay, which then accepts a connection. -/
def announced : List ManagerRun.Event :=
  let create : PortPortMessage := { msgType := .createRelay }
  let thread : List Server.ManagerAction := [.select [(.client, .r)],
    .clientIo { send := .ok 0, recv := .ok (encode create) }, .turn, .recvTurn [.bound 4000], .turn,
    .recvTurn [], .turn]
  thread.map .thread ++ [.relay 0 (.listen (.ok ())), .relay 0 (.select [(.listening, .r)]),
    .relay 0 (.accept (.ok peer))]

/-- The relay has taken data for a connection. -/
def relayed : List RelayRun.Event :=
  let thread : List Relay.RelayAction := [.listen (.ok ()), .select [(.listening, .r)],
    .accept (.ok peer), .turn, .turn]
  thread.map .thread ++ [.put ⟨.message, peer.1, peer.2, [1], 4000⟩, .wakeup,
    .thread (.select [(.wakeup, .r)]), .thread (.wakeupRead false), .thread .turn, .thread .turn,
    .thread .turn]

/-- The remote proxy thread has taken five of the six closes with which the local proxy has answered
data for an unknown connection, behind a callback that has read all six wakeup bytes. -/
def burst : List RemoteRun.Event :=
  let data := (List.replicate 6 (frame .message [1])).flatten
  let thread : List Client.RemoteAction := [.select [(.client, .r)],
    .relayIo { send := .ok 0, recv := .ok data }] ++ List.replicate 9 .turn
  let item : RemoteRun.Event := .proxy (.item 0 { socket := .ok 0, connect := .ok () })
  thread.map .thread ++ [.proxy .turn] ++ List.replicate 5 item ++
    [.proxy .turn, .proxy (.select []), .proxy .turn, .proxy .turn, item] ++
    List.replicate 6 .wakeup ++ [.thread (.select [(.wakeup, .r)]), .thread .wakeupRead] ++
    List.replicate 8 (.thread .turn)

/-- The local proxy has taken data for a connection. -/
def delivered : List LocalRun.Event :=
  [.put ⟨.newConnection, peer.1, peer.2, [], 4000⟩, .wakeup,
    .put ⟨.message, peer.1, peer.2, [1], 4000⟩, .wakeup, .thread .turn,
    .thread (.item 0 { socket := .ok 5, connect := .ok () }),
    .thread (.item 0 { socket := .ok 6, connect := .ok () }), .thread .turn]

theorem announced_selecting : ∃ m, ManagerRun.run (fun _ _ => true) announced = some m ∧
    m.Selecting ∧ m.server.mgr.inboundData ≠ [] ∧ m.server.mgr.sendq ≠ [] := by
  have hx : (ManagerRun.run (fun _ _ => true) announced).map (fun m =>
      (m.server.mgr.phase, m.server.closeService, m.server.mgr.closeThread,
        m.server.mgr.inboundData.length, m.server.mgr.sendq.length)) =
      some (.top, false, false, 1, 5) := by
    decide +kernel
  obtain ⟨m, hm, hx⟩ := Option.map_eq_some_iff.mp hx
  simp only [Prod.mk.injEq] at hx
  obtain ⟨hp, hs, ht, hi, hq⟩ := hx
  refine ⟨m, hm, ⟨hp, hs, ht⟩, ?_, ?_⟩
  · exact List.ne_nil_of_length_pos (by omega)
  · exact List.ne_nil_of_length_pos (by omega)

theorem burst_selecting : ∃ c, RemoteRun.run RemoteRun.keepsBytes burst = some c ∧
    c.Selecting ∧ c.client.remote.toRemoteProxy ≠ [] ∧ c.client.remote.sendq ≠ [] := by
  have hx : (RemoteRun.run RemoteRun.keepsBytes burst).map (fun c =>
      (c.client.remote.phase, c.client.close, c.client.remote.toRemoteProxy.length,
        c.client.remote.sendq.length)) = some (.top, false, 1, 60) := by
    decide +kernel
  obtain ⟨c, hc, hx⟩ := Option.map_eq_some_iff.mp hx
  simp only [Prod.mk.injEq] at hx
  obtain ⟨hp, hs, hi, hq⟩ := hx
  refine ⟨c, hc, ⟨hp, hs⟩, ?_, ?_⟩
  · exact List.ne_nil_of_length_pos (by omega)
  · exact List.ne_nil_of_length_pos (by omega)

theorem relayed_selecting : ∃ r, RelayRun.run RelayRun.pushesBytes relayed = some r ∧
    r.Selecting ∧ r.relay.connectionTable.lookup peer = some 0 ∧ (r.relay.conns 0).sendq ≠ [] := by
  have hx : (RelayRun.run RelayRun.pushesBytes relayed).map (fun r =>
      (r.relay.phase, r.closeReq, r.relay.atomicClose, r.relay.connectionTable.lookup peer,
        (r.relay.conns 0).sendq)) = some (.top, false, false, some 0, [1]) := by
    decide +kernel
  obtain ⟨r, hr, hx⟩ := Option.map_eq_some_iff.mp hx
  simp only [Prod.mk.injEq] at hx
  obtain ⟨hp, hs, ha, hl, hq⟩ := hx
  exact ⟨r, hr, ⟨hp, hs, ha⟩, hl, by simp [hq]⟩

theorem delivered_selecting : ∃ l, LocalRun.run (fun _ _ => true) delivered = some l ∧
    l.Selecting ∧ 0 ∈ l.proxy.created ∧ (l.proxy.conns 0).sck.isOpen ∧
      (l.proxy.conns 0).sendq ≠ [] := by
  have hx : (LocalRun.run (fun _ _ => true) delivered).map (fun l =>
      (l.proxy.phase, l.close, l.proxy.created, (l.proxy.conns 0).sck.isOpen,
        (l.proxy.conns 0).sendq)) = some (.select, false, [0], true, [1]) := by
    decide +kernel
  obtain ⟨l, hl, hx⟩ := Option.map_eq_some_iff.mp hx
  simp only [Prod.mk.injEq] at hx
  obtain ⟨hp, hs, hc, ho, hq⟩ := hx
  exact ⟨l, hl, ⟨hp, hs⟩, by simp [hc], ho, by simp [hq]⟩

/-! ## Pending output -/

/-- A socket is registered for write events while bytes wait, and exactly while its writer's flag
is set. -/
def OutputArmed (sendq : Bytes) (writeEnabled : Bool) (registered : Option Mask) : Prop :=
  (sendq ≠ [] → registered.any Mask.write = true) ∧
    (writeEnabled = true ↔ registered.any Mask.write = true)

theorem OutputArmed.of_flag {sendq : Bytes} {writeEnabled : Bool} {registered : Option Mask}
    (hmask : registered = some (if writeEnabled then .rw else .r))
    (hflag : sendq ≠ [] → writeEnabled = true) : OutputArmed sendq writeEnabled registered := by
  have hw : registered.any Mask.write = writeEnabled := by
    rw [hmask]
    cases writeEnabled <;> rfl
  exact ⟨fun hq => hw.trans (hflag hq), by rw [hw]⟩

theorem ManagerRun.Reachable.output {P : ManagerRun → Event → Prop} {m : ManagerRun}
    (h : Reachable P m) :
    OutputArmed m.server.mgr.sendq m.server.mgr.writeEnabled (some m.server.mgr.mask) :=
  .of_flag (congrArg some h.armed.mask) h.armed.flag.mpr

theorem RelayRun.Reachable.output {P : RelayRun → Event → Prop} {r : RelayRun}
    (h : Reachable P r) {addr : Peer} {n : Nat}
    (hl : r.relay.connectionTable.lookup addr = some n) :
    OutputArmed (r.relay.conns n).sendq (r.relay.conns n).writeEnabled (r.relay.selector n) := by
  have hI : r.relay.Inv False := Reachable.inv (fun h => h.elim) h
  obtain ⟨mask, hmask⟩ := Option.isSome_iff_exists.mp (hI.entry hl).2.2.1
  exact .of_flag (hmask.trans (congrArg some (h.armed.mask hmask))) h.armed.flag

theorem RemoteRun.Reachable.output {P : RemoteRun → Event → Prop} {c : RemoteRun}
    (h : Reachable P c) (hsel : c.Selecting) :
    OutputArmed c.client.remote.sendq c.client.remote.writeEnabled c.client.remote.mask := by
  obtain ⟨mask, hmask⟩ := h.armed.mask_some hsel.close
  exact .of_flag (hmask.trans (congrArg some (h.armed.remote.mask mask hmask))) h.armed.remote.flag

theorem LocalRun.Reachable.output {P : LocalRun → Event → Prop} {l : LocalRun}
    (h : Reachable P l) (hsel : l.Selecting) {n : Nat} (hn : n ∈ l.proxy.created)
    (ho : (l.proxy.conns n).sck.isOpen) :
    OutputArmed (l.proxy.conns n).sendq (l.proxy.conns n).writeEnabled
      (l.proxy.registeredEvents n) := by
  have halive : l.proxy.Alive := fun e he => by cases hsel.phase.symm.trans he
  exact .of_flag (h.armed.proxy.registeredEvents_eq halive hn ho) h.armed.proxy.flag

/-- **Pending output is armed**: whenever one of the four writers is about to call `select`, each of
its sockets is registered for write events while bytes wait for it, and exactly while its
`write_enabled` is set. -/
theorem output_armed {m : ManagerRun} {r : RelayRun} {c : RemoteRun} {l : LocalRun}
    (hm : ManagerRun.Reachable (fun _ _ => True) m) (hr : RelayRun.Reachable (fun _ _ => True) r)
    (hc : RemoteRun.Reachable (fun _ _ => True) c) (hl : LocalRun.Reachable (fun _ _ => True) l) :
    (m.Selecting → OutputArmed m.server.mgr.sendq m.server.mgr.writeEnabled
      (some m.server.mgr.mask)) ∧
    (r.Selecting → ∀ addr n, r.relay.connectionTable.lookup addr = some n →
      OutputArmed (r.relay.conns n).sendq (r.relay.conns n).writeEnabled (r.relay.selector n)) ∧
    (c.Selecting → OutputArmed c.client.remote.sendq c.client.remote.writeEnabled
      c.client.remote.mask) ∧
    (l.Selecting → ∀ n ∈ l.proxy.created, (l.proxy.conns n).sck.isOpen →
      OutputArmed (l.proxy.conns n).sendq (l.proxy.conns n).writeEnabled
        (l.proxy.registeredEvents n)) := by
  exact ⟨fun _ => hm.output, fun _ _ _ hn => hr.output hn, fun hsel => hc.output hsel,
    fun hsel _ hn ho => hl.output hsel hn ho⟩

theorem output_armed_pending : ∃ (m : ManagerRun) (r : RelayRun) (c : RemoteRun) (l : LocalRun),
    (m.server.mgr.sendq ≠ [] ∧ m.server.mgr.mask.write = true) ∧
    ((r.relay.conns 0).sendq ≠ [] ∧ (r.relay.selector 0).any Mask.write = true) ∧
    (c.client.remote.sendq ≠ [] ∧ c.client.remote.mask.any Mask.write = true) ∧
    ((l.proxy.conns 0).sendq ≠ [] ∧ (l.proxy.registeredEvents 0).any Mask.write = true) := by
  obtain ⟨m, hm, hmsel, -, hmq⟩ := announced_selecting
  obtain ⟨r, hr, hrsel, hrl, hrq⟩ := relayed_selecting
  obtain ⟨c, hc, hcsel, -, hcq⟩ := burst_selecting
  obtain ⟨l, hl, hlsel, hln, hlo, hlq⟩ := delivered_selecting
  obtain ⟨ham, har, hac, hal⟩ := output_armed (m := m) (r := r) (c := c) (l := l)
    (ManagerRun.Reachable.of_run (fun _ _ _ => trivial) hm)
    (RelayRun.Reachable.of_run (fun _ _ _ => trivial) hr)
    (RemoteRun.Reachable.of_run (fun _ _ _ => trivial) hc)
    (LocalRun.Reachable.of_run (fun _ _ _ => trivial) hl)
  exact ⟨m, r, c, l, ⟨hmq, (ham hmsel).1 hmq⟩, ⟨hrq, (har hrsel _ _ hrl).1 hrq⟩,
    ⟨hcq, (hac hcsel).1 hcq⟩, ⟨hlq, (hal hlsel 0 hln hlo).1 hlq⟩⟩

/-! ## Bounded batches -/

/-- **Bounded batches strand no messages**: whenever the management thread or the remote proxy
thread is about to call `select`, its queue is empty, or it will be woken up: a wakeup byte is
unread, a producer is about to send one, or bytes wait for the write event that the socket is
registered for. -/
theorem batches_signalled {m : ManagerRun} {c : RemoteRun}
    (hm : ManagerRun.Reachable (fun _ _ => True) m)
    (hc : RemoteRun.Reachable (fun _ _ => True) c) :
    (m.Selecting → m.server.mgr.inboundData = [] ∨ m.server.mgr.wakeupPending = true ∨
      0 < m.putting ∨ m.server.mgr.sendq ≠ [] ∧ m.server.mgr.mask.write = true) ∧
    (c.Selecting → c.client.remote.toRemoteProxy = [] ∨ c.client.remote.wakeupPending = true ∨
      0 < c.putting ∨ c.client.remote.sendq ≠ [] ∧ c.client.remote.mask.any Mask.write = true) := by
  constructor
  · intro hsel
    exact (hm.signalled hsel).imp_right fun h => h.imp_right fun h => h.imp_right fun hq =>
      ⟨hq, hm.output.1 hq⟩
  · intro hsel
    exact (hc.signalled hsel).imp_right fun h => h.imp_right fun h => h.imp_right fun hq =>
      ⟨hq, (hc.output hsel).1 hq⟩

theorem batches_signalled_burst : ∃ (m : ManagerRun) (c : RemoteRun),
    m.Selecting ∧ m.server.mgr.inboundData ≠ [] ∧ c.Selecting ∧ c.client.remote.toRemoteProxy ≠ [] ∧
    (m.server.mgr.wakeupPending = true ∨ 0 < m.putting ∨
      m.server.mgr.sendq ≠ [] ∧ m.server.mgr.mask.write = true) ∧
    (c.client.remote.wakeupPending = true ∨ 0 < c.putting ∨
      c.client.remote.sendq ≠ [] ∧ c.client.remote.mask.any Mask.write = true) := by
  obtain ⟨m, hm, hmsel, hmi, -⟩ := announced_selecting
  obtain ⟨c, hc, hcsel, hci, -⟩ := burst_selecting
  obtain ⟨hbm, hbc⟩ := batches_signalled (m := m) (c := c)
    (ManagerRun.Reachable.of_run (fun _ _ _ => trivial) hm)
    (RemoteRun.Reachable.of_run (fun _ _ _ => trivial) hc)
  exact ⟨m, c, hmsel, hmi, hcsel, hci, (hbm hmsel).resolve_left hmi, (hbc hcsel).resolve_left hci⟩

/-! ## Idle write interest -/

/-- **No idle write interest**: whenever the management thread is about to call `select`, and
whenever a relay is that has appended no empty payload to an empty `sendq`, and a remote proxy
thread that has sent no `sendq` completely, a socket registered for write events has bytes to
send. -/
theorem interest_busy {m : ManagerRun} {r : RelayRun} {c : RemoteRun}
    (hm : ManagerRun.Reachable (fun _ _ => True) m)
    (hr : RelayRun.Reachable (fun s e => s.pushesBytes e) r)
    (hc : RemoteRun.Reachable (fun s e => s.keepsBytes e) c) :
    (m.Selecting → m.server.mgr.mask.write = true → m.server.mgr.sendq ≠ []) ∧
    (r.Selecting → ∀ addr n, r.relay.connectionTable.lookup addr = some n →
      (r.relay.selector n).any Mask.write = true → (r.relay.conns n).sendq ≠ []) ∧
    (c.Selecting → c.client.remote.mask.any Mask.write = true → c.client.remote.sendq ≠ []) := by
  refine ⟨fun _ hw => ?_, fun _ addr n hn hw => ?_, fun hsel hw hq => ?_⟩
  · exact hm.armed.flag.mp (hm.output.2.mpr hw)
  · exact (hr.flagged n).mp ((hr.output hn).2.mpr hw)
  · exact hc.busy ⟨(hc.output hsel).2.mpr hw, hq⟩

theorem interest_busy_pending : ∃ (r : RelayRun) (c : RemoteRun),
    ((r.relay.selector 0).any Mask.write = true ∧ (r.relay.conns 0).sendq ≠ []) ∧
    (c.client.remote.mask.any Mask.write = true ∧ c.client.remote.sendq ≠ []) := by
  obtain ⟨m, hm, -⟩ := announced_selecting
  obtain ⟨r, hr, hrsel, hrl, hrq⟩ := relayed_selecting
  obtain ⟨c, hc, hcsel, -, hcq⟩ := burst_selecting
  have hr := RelayRun.Reachable.of_run (fun _ _ h => h) hr
  have hc := RemoteRun.Reachable.of_run (fun _ _ h => h) hc
  obtain ⟨-, hbr, hbc⟩ := interest_busy (m := m) (r := r) (c := c)
    (ManagerRun.Reachable.of_run (fun _ _ _ => trivial) hm) hr hc
  have hrw := (hr.output hrl).1 hrq
  have hcw := (hc.output hcsel).1 hcq
  exact ⟨r, c, ⟨hrw, hbr hrsel _ _ hrl hrw⟩, hcw, hbc hcsel hcw⟩

/-- The relay takes an empty DATA frame. -/
def relayedEmpty : List RelayRun.Event := relayed.map fun
  | .put m => .put { m with data := [] }
  | e => e

/-- The remote proxy thread sends what waits, takes the sixth close and sends that too. -/
def burstSent : List RemoteRun.Event :=
  let send (len : Nat) : List RemoteRun.Event := [.thread (.select [(.client, ⟨false, true⟩)]),
    .thread (.relayIo { send := .ok len, recv := .ok [] }), .thread .turn, .thread .turn,
    .thread .turn]
  burst ++ send 60 ++ [.thread .turn] ++ send 12

/-- An empty DATA frame leaves write interest behind in the relay, and a complete send leaves it
behind in the remote proxy thread. -/
theorem interest_idle :
    (¬ ∀ r, RelayRun.Reachable (fun _ _ => True) r → r.Selecting →
      ∀ addr n, r.relay.connectionTable.lookup addr = some n →
        (r.relay.selector n).any Mask.write = true → (r.relay.conns n).sendq ≠ []) ∧
    ¬ ∀ c, RemoteRun.Reachable (fun _ _ => True) c → c.Selecting →
      c.client.remote.mask.any Mask.write = true → c.client.remote.sendq ≠ [] := by
  constructor
  · intro h
    have hx : (RelayRun.run (fun _ _ => true) relayedEmpty).map (fun r =>
        (r.relay.phase, r.closeReq || r.relay.atomicClose, r.relay.connectionTable.lookup peer,
          (r.relay.selector 0).any Mask.write, (r.relay.conns 0).sendq)) =
        some (.top, false, some 0, true, []) := by
      decide +kernel
    obtain ⟨r, hr, hx⟩ := Option.map_eq_some_iff.mp hx
    simp only [Prod.mk.injEq, Bool.or_eq_false_iff] at hx
    obtain ⟨hp, ⟨hs, ha⟩, hl, hsel, hq⟩ := hx
    exact h r (RelayRun.Reachable.of_run (fun _ _ _ => trivial) hr) ⟨hp, hs, ha⟩ _ _ hl hsel
      hq
  · intro h
    have hx : (RemoteRun.run (fun _ _ => true) burstSent).map (fun c =>
        (c.client.remote.phase, c.client.close, c.client.remote.mask, c.client.remote.sendq)) =
        some (.top, false, some .rw, []) := by
      decide +kernel
    obtain ⟨c, hc, hx⟩ := Option.map_eq_some_iff.mp hx
    simp only [Prod.mk.injEq] at hx
    obtain ⟨hp, hs, hm, hq⟩ := hx
    exact h c (RemoteRun.Reachable.of_run (fun _ _ _ => trivial) hc) ⟨hp, hs⟩ (by rw [hm]; rfl) hq

end PortPort
