import PortPort.Lib.SelfPipe
import PortPort.Server.RelayWakeup
import PortPort.System.EventLoops

/-! # The wakeup sockets

`wakeup_pair` makes a non-blocking socket pair. `wakeup_socket` sends one byte and ignores a full
buffer; `handle_wakeup` receives up to 4096 bytes at a time until an exception ends its loop, while
other threads go on sending. The models of the loops keep one flag for all this. -/

namespace PortPort
open SelfPipe (Flagged Piped)
open System.Run (frame peer)

/-- The size that every `recv` of `handle_wakeup` asks for. -/
def WAKEUP_SIZE : Nat := 4096

/-! ## The management thread -/

namespace Manager
variable {m m' : Manager}

theorem handleWrite_wakeupPending (m : Manager) (send : Except OSError Nat) :
    (m.handleWrite send).state.wakeupPending = m.wakeupPending := by
  have hflag (sent : Outcome Manager) (h : sent.state.wakeupPending = m.wakeupPending) :
      (if sent.raised = none ∧ sent.state.sendq = [] then
        { state := { sent.state with writeEnabled := false, mask := .r } }
      else sent : Outcome Manager).state.wakeupPending = m.wakeupPending := by
    split
    · exact h
    · exact h
  unfold handleWrite
  apply hflag
  split <;> rfl

theorem handleRelayClient_wakeupPending (m : Manager) (mask : Mask) (io : ClientIO) :
    (m.handleRelayClient mask io).state.wakeupPending = m.wakeupPending := by
  have hread (out : Outcome Manager) (h : out.state.wakeupPending = m.wakeupPending) :
      (if out.raised = none ∧ mask.read then out.state.handleRead io.recv
        else out : Outcome Manager).state.wakeupPending = m.wakeupPending := by
    split
    · refine Eq.trans ?_ h
      unfold handleRead
      split <;> rfl
    · exact h
  apply hread
  split
  · exact handleWrite_wakeupPending ..
  · rfl

theorem Drains.wakeupPending {left : Nat} (hd : m.Drains left m') :
    m'.wakeupPending = m.wakeupPending := by
  cases hd with
  | sends hl hi hm =>
    obtain ⟨data, writeEnabled, mask, -, rfl⟩ := send_sent hm
    rfl
  | _ => rfl

end Manager

namespace Server
variable {s s' : Server}

theorem Replies.wakeupPending {fs : List PortPortMessage} (h : Replies s fs s') :
    s'.mgr.wakeupPending = s.mgr.wakeupPending := by
  cases h with
  | sends hm =>
    obtain ⟨data, writeEnabled, mask, -, rfl⟩ := Manager.send_sent hm
    rfl
  | breaks => rfl

/-- Of the steps of the thread, only its handler touches the wakeup socket. -/
theorem mgrStep_wakeupPending {a : ManagerAction} (h : s.mgrStep a = some s')
    (ha : ∀ eof, a ≠ .wakeupRead eof) : s'.mgr.wakeupPending = s.mgr.wakeupPending := by
  cases mgrStep_moves h with
  | clientIo => exact s.mgr.handleRelayClient_wakeupPending ..
  | wakeupRead => exact absurd rfl (ha _)
  | takes _ _ _ hmsg =>
    cases hmsg with
    | replies hr => exact hr.wakeupPending
    | _ => rfl
  | refuses _ _ hr => exact hr.wakeupPending
  | announces _ hr => exact hr.wakeupPending
  | destroys _ _ hr => exact hr.wakeupPending
  | drains => exact (s.mgr.inboundTurn_drains _).wakeupPending
  | _ => rfl

end Server

namespace ManagerRun
variable {s s' : ManagerRun} {e : Event}

/-- The wakeup pair of `relayMgmt`. -/
def pair : Flagged ManagerRun.step where
  pending s := s.server.mgr.wakeupPending
  wakes
    | .wakeup => true
    | _ => false
  clears
    | .thread (.wakeupRead _) => true
    | _ => false
  own
    | .thread _ => true
    | _ => false
  entered s :=
    match s.server.mgr.phase with
    | .dispatch ((.wakeup, _) :: _) => true
    | _ => false
  set {s e s'} hs he := by
    cases e with
    | wakeup =>
      simp only [step, Option.ite_none_right_eq_some, Option.some.injEq] at hs
      obtain ⟨-, rfl⟩ := hs
      rfl
    | _ => cases he
  clear {s e s'} hs he := by
    cases e with
    | thread a =>
      obtain ⟨server, hserver, rfl⟩ := Option.map_eq_some_iff.mp hs
      cases Server.mgrStep_moves hserver with
      | wakeupRead => rfl
      | _ => cases he
    | _ => cases he
  keep {s e s'} hs hw hc := by
    cases e with
    | thread a =>
      obtain ⟨server, hserver, rfl⟩ := Option.map_eq_some_iff.mp hs
      exact Server.mgrStep_wakeupPending hserver fun eof ha => by subst ha; cases hc
    | relay rid a =>
      obtain ⟨⟨server, puts⟩, -, rfl⟩ := Option.map_eq_some_iff.mp hs
      rfl
    | wakeup => cases hw
    | shutdown =>
      cases hs
      rfl
  stays {s e s'} hs ho he := by
    obtain ⟨inboundData, wakeupPending, hm⟩ := step_others (fun a ha => by subst ha; cases ho) hs
    rw [hm]
    exact he

end ManagerRun

/-! ## The remote proxy thread -/

namespace RemoteProxy
variable {c : RemoteProxy}

theorem handleRelay_wakeupPending (c : RemoteProxy) (mask : Mask) (io : RelayIO) :
    (c.handleRelay mask io).state.wakeupPending = c.wakeupPending := by
  have hread (out : RemoteOutcome) (h : out.state.wakeupPending = c.wakeupPending) :
      (if out.returned = false ∧ out.raised = none ∧ mask.read then out.state.handleRead io.recv
        else out : RemoteOutcome).state.wakeupPending = c.wakeupPending := by
    split
    · refine Eq.trans ?_ h
      unfold handleRead
      split
      · split <;> rfl
      all_goals rfl
    · exact h
  apply hread
  split
  · unfold handleWrite
    split <;> rfl
  · rfl

theorem batchTurn_wakeupPending (c : RemoteProxy) (left : Nat) :
    (c.batchTurn left).wakeupPending = c.wakeupPending := by
  unfold batchTurn
  split
  · rfl
  split
  · rfl
  simp only
  split
  · rfl
  split
  · rfl
  · unfold enqueueSendq
    simp only
    split
    · split <;> rfl
    · rfl

end RemoteProxy

namespace RemoteRun
variable {s s' : RemoteRun} {e : Event}

/-- Of the steps of the thread, only its handler touches the wakeup socket. -/
theorem remoteStep_wakeupPending {c c' : Client} {a : Client.RemoteAction}
    (h : c.remoteStep a = some c') (ha : a ≠ .wakeupRead) :
    c'.remote.wakeupPending = c.remote.wakeupPending := by
  cases Client.remoteStep_moves h with
  | relayIo => exact c.remote.handleRelay_wakeupPending ..
  | wakeupRead => exact absurd rfl ha
  | takes => rw [Client.processMsg_remote]
  | batch => exact c.remote.batchTurn_wakeupPending _
  | _ => rfl

/-- The wakeup pair of `create_remote_proxy`. -/
def pair : Flagged RemoteRun.step where
  pending s := s.client.remote.wakeupPending
  wakes
    | .wakeup => true
    | _ => false
  clears
    | .thread .wakeupRead => true
    | _ => false
  own
    | .thread _ => true
    | _ => false
  entered s :=
    match s.client.remote.phase with
    | .dispatch ((.wakeup, _) :: _) => true
    | _ => false
  set {s e s'} hs he := by
    cases e with
    | wakeup =>
      simp only [step, Option.ite_none_right_eq_some, Option.some.injEq] at hs
      obtain ⟨-, rfl⟩ := hs
      rfl
    | _ => cases he
  clear {s e s'} hs he := by
    cases e with
    | thread a =>
      obtain ⟨client, hclient, rfl⟩ := Option.map_eq_some_iff.mp hs
      cases Client.remoteStep_moves hclient with
      | wakeupRead => rfl
      | _ => cases he
    | _ => cases he
  keep {s e s'} hs hw hc := by
    rcases step_cases hs with ⟨a, rfl, ha, -⟩ | ⟨-, -, puts, hm, -⟩ | ⟨rfl, -⟩ | ⟨-, rfl⟩
    · exact remoteStep_wakeupPending ha fun ha => by subst ha; cases hc
    · rw [hm]
    · cases hw
    · rfl
  stays {s e s'} hs ho he := by
    rcases step_cases hs with ⟨a, rfl, -⟩ | ⟨-, -, puts, hm, -⟩ | ⟨-, -, hm⟩ | ⟨-, rfl⟩
    · cases ho
    · rw [hm]
      exact he
    · rw [hm]
      exact he
    · exact he

end RemoteRun

/-! ## The relay -/

namespace RelayRun
variable {s s' : RelayRun} {e : Event}

/-- Of the steps of the thread, only its handler touches the wakeup socket. -/
theorem relayStep_wakeupPending {r r' : Relay} {closeReq : Bool} {a : Relay.RelayAction}
    {puts : List (Nat × QueuedRelayMessage)} (h : r.step closeReq a = some (r', puts))
    (ha : ∀ eof, a ≠ .wakeupRead eof) : r'.wakeupPending = r.wakeupPending := by
  have hserved {out : Outcome Relay} (hserves : Relay.Serves r out.state) :
      out.state.wakeupPending = r.wakeupPending := by
    obtain ⟨_, _, _, _, _, hout⟩ := hserves
    rw [hout]
  have hcallback {out : Outcome Relay} {events : List (RelayKey × Mask)}
      (hserves : Relay.Serves r out.state) :
      (Relay.afterCallback out events).wakeupPending = r.wakeupPending := by
    refine Eq.trans ?_ (hserved hserves)
    unfold Relay.afterCallback
    split <;> rfl
  cases Relay.step_moves h with
  | accepts => rfl
  | io => exact hcallback (r.handleSocket_serves ..)
  | wakeupRead => exact absurd rfl (ha _)
  | @handles m rest =>
    obtain ⟨_, _, _, _, _, hout⟩ := Relay.handleOutbound_serves { r with outbound := rest } m
    have hkept : ({ r with outbound := rest }.handleOutbound m).state.wakeupPending =
        r.wakeupPending := by rw [hout]
    refine Eq.trans ?_ hkept
    unfold Relay.afterOutbound
    split <;> rfl
  | @cleansUp addr =>
    refine Eq.trans ?_ (hserved (r.cleanUpConnection_serves addr))
    split <;> rfl
  | _ => rfl

/-- The wakeup pair of a `Relay`. -/
def pair : Flagged RelayRun.step where
  pending s := s.relay.wakeupPending
  wakes
    | .wakeup | .rouse => true
    | _ => false
  clears
    | .thread (.wakeupRead _) => true
    | _ => false
  own
    | .thread _ => true
    | _ => false
  entered s :=
    match s.relay.phase with
    | .dispatch ((.wakeup, _) :: _) => true
    | _ => false
  set {s e s'} hs he := by
    cases e with
    | wakeup =>
      simp only [step, Option.ite_none_right_eq_some, Option.some.injEq] at hs
      obtain ⟨-, rfl⟩ := hs
      rfl
    | rouse =>
      cases hs
      rfl
    | _ => cases he
  clear {s e s'} hs he := by
    cases e with
    | thread a =>
      obtain ⟨⟨r, puts⟩, hr, rfl⟩ := Option.map_eq_some_iff.mp hs
      cases Relay.step_moves hr with
      | wakeupRead => rfl
      | _ => cases he
    | _ => cases he
  keep {s e s'} hs hw hc := by
    cases e with
    | thread a =>
      obtain ⟨⟨r, puts⟩, hr, rfl⟩ := Option.map_eq_some_iff.mp hs
      exact relayStep_wakeupPending hr fun eof ha => by subst ha; cases hc
    | wakeup | rouse => cases hw
    | put | atomicClose | shutdown =>
      cases hs
      rfl
  stays {s e s'} hs ho he := by
    cases e with
    | thread a => cases ho
    | wakeup =>
      simp only [step, Option.ite_none_right_eq_some, Option.some.injEq] at hs
      obtain ⟨-, rfl⟩ := hs
      exact he
    | put | rouse | atomicClose | shutdown =>
      cases hs
      exact he

end RelayRun

/-! ## No wakeup is lost between the bytes -/

namespace WakeupPair
variable {σ α : Type} {next : σ → α → Option σ}

/-- The reachable states of a loop over the bytes of its wakeup pair, where the kernel's buffer
holds `capacity` bytes and the wakers send `byte`. -/
abbrev Reachable (F : Flagged next) (I : σ → Prop) (capacity : Nat) (byte : UInt8)
    (P : σ → α → Prop) : Piped σ UInt8 → Prop :=
  Transition.Reach (Transition.Fires (F.step capacity WAKEUP_SIZE byte))
    (fun c e => ∀ a, e.action = some a → P c.state a) (F.Start I)

/-- The execution of a list of events from a state with a new pair. -/
def run (F : Flagged next) (capacity : Nat) (byte : UInt8) (test : σ → α → Bool) (s : σ)
    (es : List (SelfPipe.Event α)) : Option (Piped σ UInt8) :=
  Transition.exec (F.step capacity WAKEUP_SIZE byte) (fun c e => e.action.all (test c.state))
    { state := s } es

theorem Reachable.of_run {F : Flagged next} {I : σ → Prop} {capacity : Nat} {byte : UInt8}
    {P : σ → α → Prop} {test : σ → α → Bool} {s : σ} {es : List (SelfPipe.Event α)}
    {c : Piped σ UInt8} (htest : ∀ s a, test s a → P s a) (hs : I s) (hp : F.pending s = false)
    (h : run F capacity byte test s es = some c) : Reachable F I capacity byte P c :=
  .exec (fun c e he a ha => htest _ _ (by simpa [ha] using he)) (.init ⟨hs, hp, rfl, rfl⟩) h

end WakeupPair

theorem RelayRun.Reachable.awake {s : RelayRun}
    (h : Reachable (fun s e => s.signalsAbandoned e) s) : s.Awake := by
  apply h.invariant_of (J := Awake) (K := fun s => s.relay.Inv False)
  · exact fun _ h => RelayRun.Reachable.inv (fun h => h.elim) h
  · rintro _ ⟨port, rfl⟩ - -
    exact .inl rfl
  · exact fun _ _ _ hI h hP hs => h.step hI hP hs

/-- **No wakeup is lost between the bytes**: the handlers receive one buffer after the other while
other threads send, and a byte sent to a full buffer is lost; and still, whenever the management
thread, the remote proxy thread or a relay whose drain leaves no unsignalled message behind is about
to call `select` with messages on its queue, its wakeup socket is readable, or a waker is about to
send, or bytes wait for the write event that the socket is registered for. -/
theorem wakeups_readable {capacity : Nat} (hcap : 0 < capacity) {m : Piped ManagerRun UInt8}
    {c : Piped RemoteRun UInt8} {r : Piped RelayRun UInt8}
    (hm : WakeupPair.Reachable ManagerRun.pair ManagerRun.Init capacity 255 (fun _ _ => True) m)
    (hc : WakeupPair.Reachable RemoteRun.pair RemoteRun.Init capacity 255 (fun _ _ => True) c)
    (hr : WakeupPair.Reachable RelayRun.pair RelayRun.Init capacity 0
      (fun s e => s.signalsAbandoned e) r) :
    (m.state.Selecting → m.state.server.mgr.inboundData = [] ∨ m.buffer ≠ [] ∨
      0 < m.state.putting ∨
      m.state.server.mgr.sendq ≠ [] ∧ m.state.server.mgr.mask.write = true) ∧
    (c.state.Selecting → c.state.client.remote.toRemoteProxy = [] ∨ c.buffer ≠ [] ∨
      0 < c.state.putting ∨
      c.state.client.remote.sendq ≠ [] ∧ c.state.client.remote.mask.any Mask.write = true) ∧
    (r.state.Selecting → r.state.relay.outbound = [] ∨ r.buffer ≠ [] ∨ 0 < r.state.putting) := by
  obtain ⟨hmr, hma⟩ := Flagged.reach (P := fun _ _ => True) hcap hm
  obtain ⟨hcr, hca⟩ := Flagged.reach (P := fun _ _ => True) hcap hc
  obtain ⟨hrr, hra⟩ := Flagged.reach (P := fun (s : RelayRun) e => s.signalsAbandoned e) hcap hr
  refine ⟨fun hsel => ?_, fun hsel => ?_, fun hsel => ?_⟩
  · have hnot : ManagerRun.pair.entered m.state = false := by simp [ManagerRun.pair, hsel.phase]
    rcases ManagerRun.Reachable.signalled hmr hsel with hq | hp | hput | hsend
    · exact .inl hq
    · exact .inr (.inl (hma.of_pending hnot hp))
    · exact .inr (.inr (.inl hput))
    · exact .inr (.inr (.inr ⟨hsend, (ManagerRun.Reachable.output hmr).1 hsend⟩))
  · have hnot : RemoteRun.pair.entered c.state = false := by simp [RemoteRun.pair, hsel.phase]
    rcases RemoteRun.Reachable.signalled hcr hsel with hq | hp | hput | hsend
    · exact .inl hq
    · exact .inr (.inl (hca.of_pending hnot hp))
    · exact .inr (.inr (.inl hput))
    · exact .inr (.inr (.inr ⟨hsend, (RemoteRun.Reachable.output hcr hsel).1 hsend⟩))
  · have hnot : RelayRun.pair.entered r.state = false := by simp [RelayRun.pair, hsel.phase]
    rcases RelayRun.Reachable.awake hrr (.inr hsel.phase) ⟨hsel.closeReq, hsel.atomicClose⟩
      with hq | hp | hput
    · exact .inl hq
    · exact .inr (.inl (hra.of_pending hnot hp))
    · exact .inr (.inr hput)

/-- A relay sends to a buffer of one byte while the handler of the management thread receives, and
two more relays' messages come when the thread has taken and sent what it found. -/
def handledTwice : List (SelfPipe.Event ManagerRun.Event) :=
  let accept (port : Int) : List ManagerRun.Event := [.relay 0 .turn, .relay 0 .turn,
    .relay 0 (.select [(.listening, .r)]), .relay 0 (.accept (.ok (.dotted 10 0 0 1, port)))]
  let sends (len : Nat) : List Server.ManagerAction :=
    [.clientIo { send := .ok len, recv := .ok [] }, .turn, .recvTurn []]
  let thread : List Server.ManagerAction := sends 5 ++ [.turn, .turn, .turn,
    .select [(.client, ⟨false, true⟩)]] ++ sends 24 ++ [.turn]
  announced.map .act ++ [.wake .wakeup,
    .act (.thread (.select [(.wakeup, .r), (.client, ⟨false, true⟩)])), .recv 1] ++
    (accept 5001).map .act ++ [.wake .wakeup, .recv 1, .done (.thread (.wakeupRead false))] ++
    thread.map (.act ∘ .thread) ++ (accept 5002 ++ accept 5003).map .act ++
    [.wake .wakeup, .wake .wakeup]

/-- The remote proxy thread is about to call `select` when the local proxy answers data for an
unknown connection. -/
def answered : List (SelfPipe.Event RemoteRun.Event) :=
  let thread : List Client.RemoteAction := [.select [(.client, .r)],
    .relayIo { send := .ok 0, recv := .ok (frame .message [1]) }] ++ List.replicate 4 .turn
  let item : RemoteRun.Event := .proxy (.item 0 { socket := .ok 0, connect := .ok () })
  thread.map (.act ∘ .thread) ++ [.act (.proxy .turn), .act item, .wake .wakeup]

/-- Two messages for the relay come while its buffer holds one byte. -/
def enqueuedTwice : List (SelfPipe.Event RelayRun.Event) :=
  let q : QueuedRelayMessage := ⟨.closeConnection, peer.1, peer.2, [], 4000⟩
  [.act (.thread (.listen (.ok ()))), .act (.put q), .act (.put q), .wake .wakeup, .wake .wakeup]

theorem wakeups_readable_capacity_one : ∃ m c r,
    (m.state.putting = 0 ∧ m.state.server.mgr.sendq = [] ∧
      m.state.server.mgr.inboundData.length = 2 ∧ m.buffer ≠ []) ∧
    (c.state.putting = 0 ∧ c.state.client.remote.sendq = [] ∧
      c.state.client.remote.toRemoteProxy.length = 1 ∧ c.buffer ≠ []) ∧
    (r.state.putting = 0 ∧ r.state.relay.outbound.length = 2 ∧ r.buffer ≠ []) ∧
    WakeupPair.run ManagerRun.pair 1 255 (fun _ _ => true) (ManagerRun.start none)
      handledTwice = some m ∧
    WakeupPair.run RemoteRun.pair 1 255 (fun _ _ => true) (RemoteRun.start 4000)
      answered = some c ∧
    WakeupPair.run RelayRun.pair 1 0 RelayRun.signalsAbandoned (RelayRun.start 4000)
      enqueuedTwice = some r := by
  have hxm : (WakeupPair.run ManagerRun.pair 1 255 (fun _ _ => true) (ManagerRun.start none)
      handledTwice).any (fun m => m.state.server.mgr.phase = .top ∧
        m.state.server.closeService = false ∧ m.state.server.mgr.closeThread = false ∧
        m.state.putting = 0 ∧ m.state.server.mgr.sendq = [] ∧
        m.state.server.mgr.inboundData.length = 2) = true := by
    decide +kernel
  have hxc : (WakeupPair.run RemoteRun.pair 1 255 (fun _ _ => true) (RemoteRun.start 4000)
      answered).any (fun c => c.state.client.remote.phase = .top ∧
        c.state.client.close = false ∧ c.state.putting = 0 ∧ c.state.client.remote.sendq = [] ∧
        c.state.client.remote.toRemoteProxy.length = 1) = true := by
    decide +kernel
  have hxr : (WakeupPair.run RelayRun.pair 1 0 RelayRun.signalsAbandoned (RelayRun.start 4000)
      enqueuedTwice).any (fun r => r.state.relay.phase = .top ∧ r.state.closeReq = false ∧
        r.state.relay.atomicClose = false ∧ r.state.putting = 0 ∧
        r.state.relay.outbound.length = 2) = true := by
    decide +kernel
  obtain ⟨m, hm, hxm⟩ := (Option.any_eq_true ..).mp hxm
  obtain ⟨c, hc, hxc⟩ := (Option.any_eq_true ..).mp hxc
  obtain ⟨r, hr, hxr⟩ := (Option.any_eq_true ..).mp hxr
  obtain ⟨hmp, hms, hmt, hmput, hmq, hmi⟩ := of_decide_eq_true hxm
  obtain ⟨hcp, hcs, hcput, hcq, hci⟩ := of_decide_eq_true hxc
  obtain ⟨hrp, hrs, hrt, hrput, hro⟩ := of_decide_eq_true hxr
  obtain ⟨hwm, hwc, hwr⟩ := wakeups_readable Nat.one_pos
    (.of_run (fun _ _ _ => trivial) ⟨none, rfl⟩ rfl hm)
    (.of_run (fun _ _ _ => trivial) ⟨4000, rfl⟩ rfl hc)
    (.of_run (fun _ _ h => h) ⟨4000, rfl⟩ rfl hr)
  refine ⟨m, c, r, ⟨hmput, hmq, hmi, ?_⟩, ⟨hcput, hcq, hci, ?_⟩, ⟨hrput, hro, ?_⟩, hm, hc, hr⟩
  · rcases hwm ⟨hmp, hms, hmt⟩ with hnil | hbuffer | hput | hsend
    · simp [hnil] at hmi
    · exact hbuffer
    · omega
    · exact absurd hmq hsend.1
  · rcases hwc ⟨hcp, hcs⟩ with hnil | hbuffer | hput | hsend
    · simp [hnil] at hci
    · exact hbuffer
    · omega
    · exact absurd hcq hsend.1
  · rcases hwr ⟨hrp, hrs, hrt⟩ with hnil | hbuffer | hput
    · simp [hnil] at hro
    · exact hbuffer
    · omega

end PortPort
