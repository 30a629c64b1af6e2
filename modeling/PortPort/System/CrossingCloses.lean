import PortPort.System.Handled
import PortPort.System.SendQueues

/-! # Closes that the local proxy takes

The relay answers every close it takes off its queue with a close of its own, so the local proxy is
told the end of a connection whose end it has announced itself. It has kept the connection in its
table for this, unless the local service refused it. A close is handled at all only if the thread
is still there to take it: what ends the thread is told by the calls and items it meets. -/

namespace PortPort
open Transition
open Tunnel (State)

namespace LocalProxy
variable {l l' : LocalProxy} {n : Nat}

/-! ## What ends the thread -/

/-- `handle_io_event` goes on behind the call, or has a clause for its error. -/
def answered {α : Type} : Except OSError α → Bool
  | .ok _ | .error .connectionReset | .error .brokenPipe | .error .blockingIo => true
  | .error _ => false

/-- A call for a new connection fails or is refused, its descriptor is still registered for an
earlier one, data comes for a connection whose socket is closed and has no interest in write events,
or `recv` or `send` raises what has no clause. -/
def disrupts (l : LocalProxy) : LocalAction → Bool
  | .item _ io =>
    match l.toLocal with
    | [] => false
    | q :: _ =>
      match q.kind with
      | .newConnection =>
        match io.socket with
        | .ok fd => (l.fdToKey fd).isSome || io.connect ≠ .ok ()
        | .error _ => true
      | .message =>
        (l.connections.lookup q.peer).any fun k =>
          !(l.conns k).writeEnabled && !(l.conns k).sck.isOpen
      | .closeConnection => false
  | .io io =>
    match l.phase with
    | .dispatch ((.conn n, mask) :: _) =>
      mask.read && !answered io.recv ||
        comesToWrite mask io.recv && (l.conns n).sendq ≠ [] && !answered io.send
    | _ => false
  | _ => false

/-- An open socket under a descriptor that is registered. -/
def Usable (l : LocalProxy) (n : Nat) : Prop :=
  (l.conns n).sck.isOpen = true ∧ (l.fdToKey (l.conns n).fd).isSome = true

theorem Usable.setConn (h : l.Usable n) {c : ProxiedConnection} (ho : c.sck.isOpen = true)
    (hfd : c.fd = (l.conns n).fd) : (l.setConn n c).Usable n := by
  unfold Usable LocalProxy.setConn
  simp only [Function.update_self, hfd]
  exact ⟨ho, h.2⟩

theorem Usable.modify_raised (h : l.Usable n) (events : Mask) :
    (l.modify n events).raised = none := by
  simp [modify, lookupKey, h.1, h.2]

theorem handleWrite_raised (h : l.Usable n) {send : Except OSError Nat}
    (hsend : answered send = true) : (l.handleWrite n send).raised = none := by
  cases send with
  | ok len =>
    unfold handleWrite
    simp only
    split
    · have hset := h.setConn (c := { l.conns n with
        sck := (l.conns n).sck.send ((l.conns n).sendq.take len)
        sendq := (l.conns n).sendq.drop len, writeEnabled := false }) (by simpa using h.1) rfl
      rw [hset.modify_raised]
    · rfl
  | error e =>
    cases e with
    | connectionReset | brokenPipe | blockingIo => rfl
    | _ => cases hsend

theorem handleIoEvent_raised (h : l.Usable n) {mask : Mask} {io : ConnIO}
    (hrecv : mask.read = true → answered io.recv = true)
    (hsend : comesToWrite mask io.recv = true → (l.conns n).sendq ≠ [] → answered io.send = true) :
    (l.handleIoEvent n mask io).raised = none := by
  have hwrite {l' : LocalProxy} (h' : l'.Usable n) (hq : (l'.conns n).sendq = (l.conns n).sendq)
      (hc : mask.write = true → comesToWrite mask io.recv = true) :
      (if mask.write && (l'.conns n).sendq ≠ [] then l'.handleWrite n io.send
        else { state := l' } : Outcome LocalProxy).raised = none := by
    split
    · rename_i hw
      simp only [Bool.and_eq_true, decide_eq_true_eq] at hw
      exact handleWrite_raised h' (hsend (hc hw.1) (hq ▸ hw.2))
    · rfl
  unfold handleIoEvent
  simp only
  split
  · rename_i hm
    have hrecv := hrecv hm
    cases hr : io.recv with
    | ok data =>
      simp only
      split
      · rfl
      · rename_i hd
        exact hwrite (h.setConn (by simpa using h.1) rfl) (by simp [LocalProxy.setConn])
          (by simp [comesToWrite, hr, hd])
    | error e =>
      rw [hr] at hrecv
      cases e with
      | connectionReset | brokenPipe => rfl
      | blockingIo => exact hwrite h rfl (by simp [comesToWrite, hr])
      | _ => cases hrecv
  · rename_i hm
    exact hwrite h rfl (by simp [comesToWrite, hm])

theorem handleItem_raised {m : QueuedRelayMessage} {rest : List QueuedRelayMessage} {io : ConnectIO}
    (hreg : l.Registered) (ht : l.toLocal = m :: rest) (hd : l.disrupts (.item n io) = false)
    (hlisted : m.kind = .closeConnection → l.connections.lookup m.peer ≠ none) :
    ({ l with toLocal := rest }.handleItem n m io).raised = none := by
  let l₀ : LocalProxy := { l with toLocal := rest }
  unfold handleItem
  simp only [disrupts, ht] at hd
  cases hk : m.kind with
  | newConnection =>
    rw [hk] at hd
    cases hs : io.socket with
    | error e =>
      rw [hs] at hd
      cases hd
    | ok fd =>
      simp only [hs, Bool.or_eq_false_iff, decide_eq_false_iff_not, not_not] at hd
      have hfree : l₀.enterConnection n m fd (.ok ()) = _ := enterConnection_free hd.1
      simp only [newConnection_made hs, hd.2]
      exact congrArg Outcome.raised hfree
  | message =>
    simp only [message]
    cases hl : l.connections.lookup m.peer with
    | none => rfl
    | some k =>
      simp only
      split
      · rfl
      · rename_i hw
        simp only [hk, hl, Option.any_some, hw, Bool.not_false, Bool.true_and,
          Bool.not_eq_false'] at hd
        have husable : l₀.Usable k := ⟨hd, by
          have hkeyed := hreg m.peer k hl
          cases hf : l.fdToKey (l.conns k).fd with
          | none => simp [hf] at hkeyed
          | some x => rfl⟩
        exact (husable.setConn (c := { l₀.conns k with
          sendq := (l₀.conns k).sendq ++ m.data, writeEnabled := true }) hd rfl).modify_raised _
  | closeConnection =>
    obtain ⟨k, hl⟩ := Option.ne_none_iff_exists'.mp (hlisted hk)
    have hreg₀ : l₀.Registered := hreg
    simp only
    rw [cleanupSocket_eq hreg₀ hl]

/-- A thread that is not disrupted lives on, if the closes it takes are listed in its table. -/
theorem step_goesOn {close : Bool} {a : LocalAction} {puts : List (Nat × QueuedRelayMessage)}
    (harmed : l.Armed) (hreg : l.Registered)
    (hready : ∀ events, l.phase = .dispatch events → l.Ready events)
    (hs : l.step close a = some (l', puts)) (hd : l.disrupts a = false)
    (hlisted : ∀ k io m rest, a = .item k io → l.toLocal = m :: rest →
      m.kind = .closeConnection → l.connections.lookup m.peer ≠ none) : l'.Alive := by
  have halive := step_alive hs
  intro e
  cases step_moves hs with
  | begins =>
    simp only
    split
    · intro hp
      cases hp
    · intro hp
      cases hp
  | @item left m rest k io hp ht =>
    simp only [after, handleItem_raised hreg ht hd (hlisted k io m rest rfl ht)]
    intro hp
    cases hp
  | @io k mask events io hp =>
    obtain ⟨hk, ho⟩ := (hready _ hp).2 k mask List.mem_cons_self
    have husable : l.Usable k := ⟨ho, by rw [harmed.keyed halive hk ho]; rfl⟩
    simp only [disrupts, hp, Bool.or_eq_false_iff] at hd
    have hraised : (l.handleIoEvent k mask io).raised = none := handleIoEvent_raised husable
      (fun hm => by simpa [hm] using hd.1) (fun hm hq => by simpa [hm, hq] using hd.2)
    simp only [after, hraised]
    intro hp
    cases hp
  | @drops addr k hp =>
    rw [cleanupSocket_phase, hp]
    intro hp
    cases hp
  | @dropFails addr e hp hf hr =>
    obtain ⟨k, hl⟩ := Dict.first?_mem hf
    rw [cleanupSocket_eq hreg hl] at hr
    cases hr
  | _ =>
    intro hp
    cases hp

/-- A step takes an item off the queue only where it handles it. -/
theorem step_takes_item {close : Bool} {a : LocalAction} {puts : List (Nat × QueuedRelayMessage)}
    (hs : l.step close a = some (l', puts)) {m : QueuedRelayMessage}
    (ht : l.toLocal = m :: l'.toLocal) : ∃ k io, a = .item k io := by
  have hne (hsame : l'.toLocal = l.toLocal) : False := by
    rw [hsame] at ht
    exact absurd (congrArg List.length ht) (by simp)
  cases step_moves hs with
  | item => exact ⟨_, _, rfl⟩
  | io => exact (hne (handleIoEvent_toLocal ..)).elim
  | drops | dropFails => exact (hne (cleanupSocket_toLocal ..)).elim
  | _ => exact (hne rfl).elim

end LocalProxy

/-! ## What it is to handle a close -/

/-- The local proxy has handled the close `q`: it goes on with its loop, a close for an address
that is not in its table has changed nothing, and any other close has removed the connection of
this address and touched no other. -/
structure CloseHandled (q : QueuedRelayMessage) (l l' : LocalProxy) : Prop where
  goesOn : ∃ left, l'.phase = .batch left
  absent : l.connections.lookup q.peer = none →
    l'.connections = l.connections ∧ l'.conns = l.conns ∧ l'.fdToKey = l.fdToKey
  removed : l'.connections.lookup q.peer = none
  others : ∀ k, k ≠ q.peer → l'.connections.lookup k = l.connections.lookup k
  othersConns : ∀ m, l.connections.lookup q.peer ≠ some m → l'.conns m = l.conns m

namespace System

/-- A close that the thread takes is about the connection its table has under the address, or
about one that the local service refused. -/
theorem close_listed {A : State Peer UInt8 → Peer → Prop} {own : Prop} {p : Int}
    {s s' : System} {t : State Peer UInt8} (hm : Models A own p s t) {q : QueuedRelayMessage}
    {rest : List QueuedRelayMessage} {n : Nat} {io : LocalProxy.ConnectIO}
    (hq : s.proxy.toLocal = q :: rest) (hk : q.kind = .closeConnection)
    (h : step s (.proxy (.item n io)) = some s') :
    s.proxy.connections.lookup q.peer = none ∧ (s.proxy.conns n).refused = true ∨
      s.proxy.connections.lookup q.peer = some n ∧ (s.proxy.conns n).refused = false := by
  obtain ⟨left, q', rest', hphase, hto, htag, -⟩ := item_cases h
  obtain ⟨rfl, rfl⟩ := List.cons.inj (hto.symm.trans hq)
  obtain ⟨fd, qs, hS, hC, hD, hU⟩ := hm.refines
  have hpend := hC.ok.pending_eq (by simp [show s.client.proxy.phase = _ from hphase])
  obtain ⟨-, down, hd⟩ := hD.head (hpend.trans hto) htag
  have hd : t.down = (n, .closed q'.peer) :: down := by simpa [tagged, msgOf, hk] using hd
  have hclosed := (Tunnel.Reachable.givenUp hm.reachable).closed_iff
    (Tunnel.Reachable.followed hm.reachable) (Tunnel.Reachable.numbered hm.reachable) hd
    (hU.late_eq_nil (by simp [hphase]) (by simp [hphase]))
  rw [hC.far.farTab, hC.far.refused, Bool.not_eq_true] at hclosed
  exact hclosed

/-- **A close is handled exactly when it is not about a connection the local service refused.** -/
theorem closeHandled_iff {A : State Peer UInt8 → Peer → Prop} {own : Prop} {p : Int}
    {s s' : System} {t : State Peer UInt8} (hm : Models A own p s t) {q : QueuedRelayMessage}
    {rest : List QueuedRelayMessage} {n : Nat} {io : LocalProxy.ConnectIO}
    (hq : s.proxy.toLocal = q :: rest) (hk : q.kind = .closeConnection)
    (h : step s (.proxy (.item n io)) = some s') :
    CloseHandled q s.proxy s'.proxy ↔ (s.proxy.conns n).refused = false := by
  obtain ⟨left, q', rest', hphase, hto, htag, hs'⟩ := item_cases h
  obtain ⟨rfl, rfl⟩ := List.cons.inj (hto.symm.trans hq)
  obtain ⟨fd, qs, hS, hC, hD, hU⟩ := hm.refines
  have hreg : s.proxy.Registered := hC.ok.registered fun e => by
    rw [show s.client.proxy.phase = _ from hphase]
    intro hp
    cases hp
  rcases close_listed hm hq hk h with ⟨hl, href⟩ | ⟨hl, href⟩
  · have hraise :
        ({ s.proxy with toLocal := rest' }.handleItem n q' io).raised = some .keyError := by
      have hl : s.proxy.connections.lookup q'.peer = none := hl
      simp [LocalProxy.handleItem, hk, LocalProxy.cleanupSocket, hl]
    have hcrash : s'.proxy.phase = .crashed .keyError := by
      rw [hs', LocalProxy.after, hraise]
    refine ⟨fun hh => ?_, fun hf => ?_⟩
    · obtain ⟨left, hp⟩ := hh.goesOn
      cases hcrash.symm.trans hp
    · cases href.symm.trans hf
  · have hl : s.proxy.connections.lookup q'.peer = some n := hl
    have hreg' : LocalProxy.Registered { s.proxy with toLocal := rest' } := hreg
    have hclean := LocalProxy.cleanupSocket_eq hreg' hl
    have hitem : { s.proxy with toLocal := rest' }.handleItem n q' io =
        { state := LocalProxy.removed { s.proxy with toLocal := rest' } q'.peer n } := by
      simp only [LocalProxy.handleItem, hk, hclean]
    rw [hitem] at hs'
    refine ⟨fun _ => href, fun _ => ?_⟩
    rw [hs']
    exact {
      goesOn := ⟨left, rfl⟩
      absent := fun hn => by cases hl.symm.trans hn
      removed := by simp [LocalProxy.after, LocalProxy.removed]
      others := fun k hne => by simp [LocalProxy.after, LocalProxy.removed, hne]
      othersConns := fun m hne => by
        have : m ≠ n := fun he => hne (he ▸ hl)
        simp [LocalProxy.after, LocalProxy.removed, this] }

/-! ## The thread lives -/

/-- Nothing disrupts the thread of the local proxy. -/
def Undisrupted (s : System) (a : Action) : Prop := ∀ b, a = .proxy b → s.proxy.disrupts b = false

/-- The test for `Undisrupted`. -/
def undisrupted (s : System) : Action → Bool
  | .proxy b => !s.proxy.disrupts b
  | _ => true

theorem undisrupted_iff {s : System} {a : Action} : s.undisrupted a = true ↔ Undisrupted s a := by
  unfold undisrupted Undisrupted
  split <;> simp_all

theorem Undisrupted.notRefused {s : System} {b : LocalProxy.LocalAction}
    (h : Undisrupted s (.proxy b)) (n : Nat) (io : LocalProxy.ConnectIO) (m : QueuedRelayMessage)
    (rest : List QueuedRelayMessage) (hb : b = .item n io) (hl : s.proxy.toLocal = m :: rest)
    (hk : m.kind = .newConnection) : io.connect ≠ .error .connectionRefused := by
  intro hio
  have hd := h b rfl
  rw [hb] at hd
  simp only [LocalProxy.disrupts, hl, hk] at hd
  split at hd
  · simp [hio] at hd
  · cases hd

/-- The thread lives, and no connection was refused. -/
structure Lives (s : System) : Prop where
  alive : s.proxy.Alive
  unrefused : s.proxy.Unrefused
  armed : s.proxy.Armed

theorem Lives.step {A : State Peer UInt8 → Peer → Prop} {own : Prop} {p : Int} {s s' : System}
    {t : State Peer UInt8} {a : Action} (h : s.Lives) (hm : Models A own p s t)
    (hP : Undisrupted s a) (hs : step s a = some s') : s'.Lives := by
  have hsame {l : LocalProxy} (hl : s'.proxy = l) {toLocal : List QueuedRelayMessage}
      {wakeupPending : Bool} (he : l = { s.proxy with toLocal, wakeupPending }) : s'.Lives := by
    subst he
    refine ⟨?_, ?_, ?_⟩
    · rw [hl]
      exact h.alive
    · rw [hl]
      exact h.unrefused
    · rw [hl]
      exact h.armed.control id rfl rfl rfl fun _ => rfl
  cases a with
  | proxy b =>
    have hs₀ := hs
    obtain ⟨-, l, puts, hl, rfl⟩ := proxyStep_cases hs
    obtain ⟨fd, qs, hS, hC, hD, hU⟩ := hm.refines
    have hready (events : List (LocalKey × Mask))
        (hp : s.proxy.phase = .dispatch events) : s.proxy.Ready events := hC.ok.ready hp
    have hpend : s.proxy.Pending :=
      fun events n mask hp hmem => ((hready events hp).2 n mask hmem).2
    have hreg : s.proxy.Registered := hC.ok.registered h.alive
    refine ⟨LocalProxy.step_goesOn h.armed hreg hready hl (hP b rfl) ?_,
      h.unrefused.step hP.notRefused hl,
      (LocalProxy.step_change hpend hl).armed h.armed hready h.alive⟩
    rintro n io q rest rfl hq hk hnone
    rcases close_listed hm hq hk hs₀ with ⟨-, href⟩ | ⟨hsome, -⟩
    · rw [h.unrefused n] at href
      cases href
    · cases hsome.symm.trans hnone
  | mgr a => exact hsame (congrArg Client.proxy (mgrStep_client hs)) rfl
  | relay a =>
    obtain ⟨r, puts, -, rfl⟩ := relayStep_cases hs
    exact hsame rfl rfl
  | remote a =>
    obtain ⟨toLocal, wakeupPending, hp⟩ := remoteStep_proxy hs
    exact hsame hp rfl
  | serverShutdown | clientShutdown =>
    cases hs
    exact hsame rfl rfl

theorem Reachable.lives {s : System} (h : Reachable Undisrupted s) : s.Lives := by
  refine Transition.Reach.invariant_of (J := Lives) (K := fun s => ∃ p t, Models _ False p s t)
    (fun _ h => Reachable.models_any h) ?_ ?_ h
  · rintro _ ⟨p, -, -, rfl⟩
    refine ⟨nofun, fun _ => rfl, ?_⟩
    refine ⟨?_, ?_, ?_, ?_⟩
    · simp [start, proxy]
    · simp [start, proxy]
    · simp [start, proxy]
    · simp [start, proxy]
  · rintro s a s' ⟨p, t, hm⟩ h hP hs
    exact h.step hm hP hs

/-! ## Every close is taken -/

theorem downTake_item {s s' : System} {a : Action} {q : QueuedRelayMessage}
    (hs : step s a = some s') (h : s.downTake a s' = [q]) :
    ∃ n io rest, a = .proxy (.item n io) ∧ s.proxy.toLocal = q :: rest := by
  cases a with
  | proxy b =>
    obtain ⟨-, l, puts, hl, rfl⟩ := proxyStep_cases hs
    have hq := removed_append (LocalProxy.step_takes hl)
    have htake : removed s.proxy.toLocal l.toLocal = [q] := h
    rw [htake, List.singleton_append] at hq
    obtain ⟨n, io, rfl⟩ := LocalProxy.step_takes_item hl hq
    exact ⟨n, io, _, rfl, hq⟩
  | _ => cases h

theorem downTake_length {s s' : System} {a : Action} (hs : step s a = some s') :
    (s.downTake a s').length ≤ 1 := by
  cases a with
  | proxy b =>
    obtain ⟨-, l, puts, hl, rfl⟩ := proxyStep_cases hs
    rcases LocalProxy.step_takes hl with hsame | ⟨m, hm⟩
    · change (s.proxy.toLocal.take (s.proxy.toLocal.length - l.toLocal.length)).length ≤ 1
      rw [hsame, Nat.sub_self]
      exact Nat.zero_le _
    · simp only [downTake, removed, hm, List.length_cons, List.length_take]
      change min (l.toLocal.length + 1 - l.toLocal.length) _ ≤ 1
      omega
  | _ => exact Nat.zero_le _

/-- **Closes that cross**: in every run, the local proxy handles a close as it should exactly when
the local service has not refused the connection that the close is about. If nothing disrupts the
thread, it lives and handles every close that it takes as it should; and in a session that nothing
disturbs, where the management connection works and the thread runs, it takes and handles every
close that the relay sends. -/
theorem closes_handled {s : System} :
    (Reachable (fun _ _ => True) s → ∀ {s' q rest n io}, s.proxy.toLocal = q :: rest →
      q.kind = .closeConnection → step s (.proxy (.item n io)) = some s' →
      (CloseHandled q s.proxy s'.proxy ↔ (s.proxy.conns n).refused = false)) ∧
    (Reachable Undisrupted s → s.proxy.Alive ∧ ∀ {s' q rest n io},
      s.proxy.toLocal = q :: rest → q.kind = .closeConnection →
      step s (.proxy (.item n io)) = some s' → CloseHandled q s.proxy s'.proxy) ∧
    ∀ {ρ : Run (Fires step)}, (∀ i, Undisrupted (ρ.state i) (ρ.act i)) → Quiet ρ → Working ρ →
      ρ.Fair Action.OfProxy → ∀ {i k q}, (sentDown ρ i)[k]? = some q → q.kind = .closeConnection →
      ∃ j, (handledDown ρ j).length = k ∧
        (ρ.state j).downTake (ρ.act j) (ρ.state (j + 1)) = [q] ∧
        CloseHandled q (ρ.state j).proxy (ρ.state (j + 1)).proxy := by
  have hlives {s s' : System} {q : QueuedRelayMessage} {rest : List QueuedRelayMessage} {n : Nat}
      {io : LocalProxy.ConnectIO} (h : Reachable Undisrupted s) (hq : s.proxy.toLocal = q :: rest)
      (hk : q.kind = .closeConnection) (hs : step s (.proxy (.item n io)) = some s') :
      CloseHandled q s.proxy s'.proxy := by
    obtain ⟨p, t, hm⟩ := h.models_any
    exact (closeHandled_iff hm hq hk hs).mpr (h.lives.unrefused n)
  refine ⟨fun h _ _ _ _ _ hq hk hs => ?_,
    fun h => ⟨h.lives.alive, fun hq hk hs => hlives h hq hk hs⟩, ?_⟩
  · obtain ⟨p, t, hm⟩ := h.models_any
    exact closeHandled_iff hm hq hk hs
  · intro ρ hundisrupted hquiet hworking hfair i k q hsent hk
    have hreach (j : ℕ) : Reachable Undisrupted (ρ.state j) :=
      Run.reach hundisrupted (.init hquiet.init) j
    obtain ⟨j, -, hhandled⟩ := sentDown_handled hquiet hworking hfair (i := i)
      fun j _ => (hreach j).lives.alive
    have hq : (handledDown ρ j)[k]? = some q := by
      obtain ⟨rest, hrest⟩ := hhandled
      obtain ⟨hlt, hget⟩ := List.getElem?_eq_some_iff.mp hsent
      rw [← hrest, List.getElem?_append_left hlt, List.getElem?_eq_getElem hlt, hget]
    obtain ⟨j, hlength, htake⟩ := Chan.exists_step_of_before
      (fun j => downTake_length (ρ.moves j)) hq
    obtain ⟨n, io, rest, hact, hto⟩ := downTake_item (ρ.moves j) htake
    have hmoves := ρ.moves j
    rw [hact] at hmoves
    exact ⟨j, hlength, htake, hlives (hreach j) hto hk hmoves⟩

namespace Run

/-- The relay's answer to the close of a connection that the local service refused. -/
def refusedEcho : List Action :=
  refused ++ remoteSends 1 12 ++ mgrReceives (frame .closeConnection []) 1 ++ relayDrains 1 ++
    mgrSends 1 12 ++ remoteReceives (frame .closeConnection []) 1 ++ [.proxy .turn]

/-- The end of a connection that the external host closed. -/
def externalEnd : List Action :=
  listen ++ accept peer ++ relayReads 0 [] ++ mgrSends 2 24 ++
    remoteReceives (frame .newConnection [] ++ frame .closeConnection []) 2 ++
    [.proxy .turn, .proxy (.item 0 ⟨.ok 7, .ok ()⟩)]

/-- The local proxy takes the close and ends its pass. -/
def closeTaken : List Action :=
  [.proxy (.item 0 ⟨.ok 7, .ok ()⟩), .proxy .turn, .proxy (.select []), .proxy .turn]

end Run

theorem exec_undisrupted {s : System} (h : s.settled = true) :
    exec step (fun s a => (s.undisturbed a && s.undisrupted a) && s.still) s Run.allTurns =
      some s := by
  refine exec_mono (fun a ha s hs => ?_) (exec_allTurns h)
  have hidle : ∀ a ∈ Run.allTurns, s.undisrupted a = true := by
    simp [Run.allTurns, Run.turns, Run.relayTurns, Run.proxyTurns, undisrupted,
      LocalProxy.disrupts]
  simp only [Bool.and_eq_true] at hs ⊢
  exact ⟨⟨hs.1, hidle a ha⟩, hs.2⟩

theorem externalEnd_handled :
    (∃ s s' q rest, Reachable Undisrupted s ∧ s.proxy.Alive ∧ s.proxy.toLocal = q :: rest ∧
      q.kind = .closeConnection ∧ step s (.proxy (.item 0 ⟨.ok 7, .ok ()⟩)) = some s' ∧
      (CloseHandled q s.proxy s'.proxy ↔ (s.proxy.conns 0).refused = false) ∧
      CloseHandled q s.proxy s'.proxy) ∧
    ∃ ρ : Run (Fires step), (∀ i, Undisrupted (ρ.state i) (ρ.act i)) ∧ Quiet ρ ∧ Working ρ ∧
      ρ.Fair Action.OfProxy ∧ ∃ i k q j, (sentDown ρ i)[k]? = some q ∧
        q.kind = .closeConnection ∧ (handledDown ρ j).length = k ∧
        CloseHandled q (ρ.state j).proxy (ρ.state (j + 1)).proxy := by
  let close : QueuedRelayMessage := ⟨.closeConnection, Run.peer.1, Run.peer.2, [], 4000⟩
  refine ⟨?_, ?_⟩
  · obtain ⟨s, s', hs, hs', hq⟩ := exists_of_run undisrupted Run.externalEnd
      (.proxy (.item 0 ⟨.ok 7, .ok ()⟩)) (f := fun s _ => s.proxy.toLocal) (x := [close])
      (by decide +kernel)
    have hr := Reachable.of_run (P := Undisrupted) (fun _ _ => undisrupted_iff.mp) hs
    obtain ⟨hiff, hlives, -⟩ := closes_handled (s := s)
    obtain ⟨halive, hhandled⟩ := hlives hr
    exact ⟨s, s', _, _, hr, halive, hq, rfl, hs',
      hiff (hr.mono fun _ _ _ => trivial) hq rfl hs', hhandled hq rfl hs'⟩
  · have hx : ((run (fun s a => s.undisturbed a && s.undisrupted a) Run.externalEnd).map
          fun s => s.proxy.toLocal) = some [close] ∧
        ((run (fun s a => s.undisturbed a && s.undisrupted a)
          (Run.externalEnd ++ Run.closeTaken)).map settled) = some true := by
      decide +kernel
    obtain ⟨u, hu, hlocal⟩ := Option.map_eq_some_iff.mp hx.1
    obtain ⟨t, ht, hsettled⟩ := Option.map_eq_some_iff.mp hx.2
    rw [run, exec_append hu] at ht
    have hboth (s : System) (a : Action) (h : (s.undisturbed a && s.undisrupted a) = true) :
        s.undisturbed a = true := ((Bool.and_eq_true ..).mp h).1
    obtain ⟨ρ, hquiet, htest, hworking, ⟨i, hi⟩, hfair⟩ := exists_working hboth (s := start 4000)
      ⟨4000, by decide, by decide, rfl⟩ (.exec (fun _ _ h => h) hu) (.exec (fun _ _ h => h) ht)
      (exec_undisrupted hsettled) ⟨.mgr .turn, by simp, _, rfl⟩ ⟨.remote .turn, by simp, _, rfl⟩
    have hundisrupted (i : ℕ) : Undisrupted (ρ.state i) (ρ.act i) :=
      undisrupted_iff.mp ((Bool.and_eq_true ..).mp (htest i)).2
    have hproxy : ρ.Fair Action.OfProxy :=
      hfair _ ⟨.proxy .turn, by simp [Run.proxyTurns], _, rfl⟩
    -- The close is the last item that the local proxy has got.
    have hgot : gotDown ρ i = handledDown ρ i ++ [close] := by
      have hconserved := (downQueue hquiet).before_put i
      have hitems : (downQueue hquiet).items i = [close] := by
        simp only [downQueue, hi, hlocal]
      rw [hitems] at hconserved
      exact hconserved
    have hsent : (sentDown ρ i)[(handledDown ρ i).length]? = some close := by
      obtain ⟨rest, hrest⟩ := gotDown_sent hquiet i
      rw [← hrest, hgot]
      simp
    obtain ⟨j, hlength, -, hhandled⟩ :=
      (closes_handled (s := start 4000)).2.2 hundisrupted hquiet hworking hproxy hsent rfl
    exact ⟨ρ, hundisrupted, hquiet, hworking, hproxy, i, _, close, j, hsent, rfl, hlength,
      hhandled⟩

/-- The close that the relay echoes for a refused connection ends the thread. -/
theorem refusedEcho_not_handled :
    ¬ ∀ (s s' : System) (q : QueuedRelayMessage) (rest : List QueuedRelayMessage) (n : Nat)
      (io : LocalProxy.ConnectIO), Reachable (fun _ _ => True) s → s.proxy.toLocal = q :: rest →
      q.kind = .closeConnection → step s (.proxy (.item n io)) = some s' →
      CloseHandled q s.proxy s'.proxy := by
  intro h
  obtain ⟨s, s', hs, hs', hx⟩ := exists_of_run anyStep Run.refusedEcho
    (.proxy (.item 0 ⟨.ok 7, .ok ()⟩)) (f := fun s s' => (s.proxy.toLocal, s'.proxy.phase))
    (x := ([⟨.closeConnection, Run.peer.1, Run.peer.2, [], 4000⟩], .crashed .keyError))
    (by decide +kernel)
  obtain ⟨hq, hcrash⟩ := Prod.mk.inj hx
  obtain ⟨left, hp⟩ :=
    (h s s' _ _ 0 _ (Reachable.of_run (fun _ _ _ => trivial) hs) hq rfl hs').goesOn
  cases hcrash.symm.trans hp

end System
end PortPort
