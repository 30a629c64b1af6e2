import PortPort.Client.LocalProxyInv

/-! # What one step of the local proxy does

As for the relay, every step is described by one constructor of `Change`, and an invariant is proved
constructor by constructor. Nothing is said about the selector of a thread that an exception has
ended. -/

namespace PortPort
open Function (update)

/-- The message about the connection that its thread puts on `to_proxy`. -/
def ProxiedConnection.report (c : ProxiedConnection) (kind : RelayMessageTypes) (data : Bytes) :
    QueuedRelayMessage := ⟨kind, c.addr.1, c.addr.2, data, c.relayId⟩

namespace LocalProxy

/-- The selector's map behind a `modify` that does not raise. -/
def setEvents (l : LocalProxy) (n : Nat) (events : Mask) : Nat → Option (Nat × Mask) :=
  update l.fdToKey (l.conns n).fd ((l.fdToKey (l.conns n).fd).map fun (k, _) => (k, events))

/-- The local proxy behind a `send` that accepted `len` bytes. -/
def flushed (l : LocalProxy) (n len : Nat) : LocalProxy :=
  let c := l.conns n
  let sendq := c.sendq.drop len
  { l with
    conns := update l.conns n { c with
      sck := c.sck.send (c.sendq.take len), sendq, writeEnabled := c.writeEnabled && sendq ≠ [] }
    fdToKey := if sendq = [] then l.setEvents n .r else l.fdToKey
    wakeupPending := l.wakeupPending || sendq = [] }

/-- The local proxy behind data that it has appended to the `sendq` of the connection `n`. -/
def pushed (l : LocalProxy) (n : Nat) (data : Bytes) : LocalProxy :=
  let c := l.conns n
  { l with
    conns := update l.conns n { c with sendq := c.sendq ++ data, writeEnabled := true }
    fdToKey := if c.writeEnabled then l.fdToKey else l.setEvents n .rw }

/-- The socket of the connection `n` is registered under its own descriptor. -/
def Keyed (l : LocalProxy) (n : Nat) : Prop :=
  (l.fdToKey (l.conns n).fd).map Prod.fst = some n

/-- What the callback of the open connection `n` may do. -/
inductive OwnChange (l : LocalProxy) (n : Nat) (mask : Mask) (io : ConnIO) :
    LocalProxy → List (Nat × QueuedRelayMessage) → Prop
  | refl : OwnChange l n mask io l []
  | recv (data : Bytes) (hd : data ≠ []) (ho : (l'.conns n).sck.isOpen)
      (h : OwnChange l n mask io l' puts) : OwnChange l n mask io
        (l'.setConn n { l'.conns n with sck := (l'.conns n).sck.recv data })
        (puts ++ [(n, (l'.conns n).report .message data)])
  | flush (len : Nat) (ho : (l'.conns n).sck.isOpen) (hq : (l'.conns n).sendq ≠ [])
      (h : OwnChange l n mask io l' puts) : OwnChange l n mask io (l'.flushed n len) puts
  | hangup (sck : Sock) (hs : sck.isOpen = false) (ho : (l'.conns n).sck.isOpen)
      (h : OwnChange l n mask io l' puts) : OwnChange l n mask io
        (l'.setConn n { l'.conns n with sck, closedMsgSent := true })
        (puts ++ [(n, (l'.conns n).report .closeConnection [])])
  | reset (hm : mask.read = true)
      (he : io.recv = .error .connectionReset ∨ io.recv = .error .brokenPipe)
      (ho : (l'.conns n).sck.isOpen) (h : OwnChange l n mask io l' puts) : OwnChange l n mask io
        (l'.setConn n { l'.conns n with sck := (l'.conns n).sck.close }) puts

/-- The step `a` of the local proxy `l` may do this, putting these messages on `to_proxy`. -/
inductive Change (l : LocalProxy) (a : LocalAction) :
    LocalProxy → List (Nat × QueuedRelayMessage) → Prop
  | control (phase : LocalPhase) (wakeupPending : Bool) :
      Change l a { l with phase, wakeupPending } []
  | made (n fd : Nat) (m : QueuedRelayMessage) (rest : List QueuedRelayMessage) (io : ConnectIO)
      (phase : LocalPhase) (ha : a = .item n io) (hs : io.socket = .ok fd)
      (ht : l.toLocal = m :: rest) (hk : m.kind = .newConnection) (hn : n ∉ l.created)
      (hfree : l.fdFree fd = true) (hkey : (l.fdToKey fd).isSome = false) :
      Change l a { l.enteredAt n m fd with toLocal := rest, phase } []
  | refused (n fd : Nat) (m : QueuedRelayMessage) (rest : List QueuedRelayMessage) (io : ConnectIO)
      (phase : LocalPhase) (ha : a = .item n io) (hs : io.socket = .ok fd)
      (ht : l.toLocal = m :: rest) (hk : m.kind = .newConnection) (hn : n ∉ l.created)
      (hfree : l.fdFree fd = true) (hkey : (l.fdToKey fd).isSome = false) :
      Change l a { l.refusedAt n m fd with toLocal := rest, phase }
        [(n, ⟨.closeConnection, m.addr, m.port, [], l.remotePort⟩)]
  | clash (n fd : Nat) (m : QueuedRelayMessage) (rest : List QueuedRelayMessage) (io : ConnectIO)
      (ha : a = .item n io) (hs : io.socket = .ok fd) (ht : l.toLocal = m :: rest)
      (hk : m.kind = .newConnection) (hn : n ∉ l.created) (hfree : l.fdFree fd = true)
      (hkey : (l.fdToKey fd).isSome = true) :
      Change l a { l.entered n m fd with toLocal := rest, phase := .crashed .keyError } []
  | unmade (n : Nat) (m : QueuedRelayMessage) (rest : List QueuedRelayMessage) (io : ConnectIO)
      (e : OSError) (ha : a = .item n io) (hs : io.socket = .error e) (ht : l.toLocal = m :: rest)
      (hk : m.kind = .newConnection) :
      Change l a { l with toLocal := rest, lost := some m, phase := .crashed (.os e) } []
  | unknown (n : Nat) (m : QueuedRelayMessage) (rest : List QueuedRelayMessage) (io : ConnectIO)
      (phase : LocalPhase) (ha : a = .item n io) (ht : l.toLocal = m :: rest)
      (hk : m.kind = .message) (hl : l.connections.lookup m.peer = none) :
      Change l a { l with toLocal := rest, phase }
        [(n, ⟨.closeConnection, m.addr, m.port, [], l.remotePort⟩)]
  | pushed (n k : Nat) (m : QueuedRelayMessage) (rest : List QueuedRelayMessage) (io : ConnectIO)
      (phase : LocalPhase) (ha : a = .item n io) (ht : l.toLocal = m :: rest)
      (hk : m.kind = .message) (hl : l.connections.lookup m.peer = some k)
      (hkey : (l.conns k).writeEnabled = false → (l.conns k).sck.isOpen ∨ l.Keyed k) :
      Change l a { l.pushed k m.data with toLocal := rest, phase } []
  | jammed (n k : Nat) (m : QueuedRelayMessage) (rest : List QueuedRelayMessage) (io : ConnectIO)
      (e : PyError) (fdToKey : Nat → Option (Nat × Mask)) (ha : a = .item n io)
      (ht : l.toLocal = m :: rest) (hk : m.kind = .message)
      (hl : l.connections.lookup m.peer = some k) :
      Change l a { l.pushed k m.data with toLocal := rest, phase := .crashed e, fdToKey } []
  | removed (n k : Nat) (m : QueuedRelayMessage) (rest : List QueuedRelayMessage) (io : ConnectIO)
      (phase : LocalPhase) (ha : a = .item n io) (ht : l.toLocal = m :: rest)
      (hk : m.kind = .closeConnection) (hl : l.connections.lookup m.peer = some k)
      (hkey : (l.conns k).sck.isOpen ∨ l.Keyed k) :
      Change l a { l.removed m.peer k with toLocal := rest, phase } []
  | uncleaned (n : Nat) (m : QueuedRelayMessage) (rest : List QueuedRelayMessage) (io : ConnectIO)
      (e : PyError) (ha : a = .item n io) (ht : l.toLocal = m :: rest)
      (hk : m.kind = .closeConnection) :
      Change l a { l with toLocal := rest, phase := .crashed e } []
  | own (n : Nat) (mask : Mask) (events : List (LocalKey × Mask)) (io : ConnIO)
      (hp : l.phase = .dispatch ((.conn n, mask) :: events)) (ha : a = .io io)
      (h : OwnChange l n mask io l' puts) : Change l a { l' with phase := .dispatch events } puts
  | dropped (addr : Peer) (n : Nat) (hp : l.phase = .closing) (ha : a = .turn)
      (hf : Dict.first? l.connections = some addr) (hl : l.connections.lookup addr = some n)
      (hkey : (l.conns n).sck.isOpen ∨ l.Keyed n) :
      Change l a (l.removed addr n)
        [(n, ⟨.closeConnection, addr.1, addr.2, [], (l.conns n).relayId⟩)]
  | crash (e : PyError) (fdToKey : Nat → Option (Nat × Mask)) (wakeupPending : Bool)
      (h : Change l a l' puts) :
      Change l a { l' with phase := .crashed e, fdToKey, wakeupPending } puts

section
variable {l l' : LocalProxy}

theorem lookupKey_ok {n fd : Nat} (h : l.lookupKey n = .ok fd) :
    fd = (l.conns n).fd ∧ ((l.conns n).sck.isOpen ∨ l.Keyed n) := by
  unfold lookupKey at h
  simp only at h
  split at h
  · split at h <;> cases h
    exact ⟨rfl, .inl ‹_›⟩
  · split at h <;> cases h
    exact ⟨rfl, .inr ‹_›⟩

theorem modify_eq (n : Nat) (events : Mask) :
    (l.modify n events = { state := { l with fdToKey := l.setEvents n events } } ∧
      ((l.conns n).sck.isOpen ∨ l.Keyed n)) ∨
    ∃ e fdToKey, l.modify n events = { state := { l with fdToKey }, raised := some e } := by
  unfold modify
  cases hk : l.lookupKey n with
  | error e => exact .inr ⟨e, l.fdToKey, rfl⟩
  | ok fd =>
    obtain ⟨rfl, hkey⟩ := lookupKey_ok hk
    simp only
    split
    · exact .inr ⟨_, _, rfl⟩
    · exact .inl ⟨rfl, hkey⟩

theorem cleanupSocket_cases (address : Peer) :
    (∃ n, l.connections.lookup address = some n ∧ ((l.conns n).sck.isOpen ∨ l.Keyed n) ∧
      l.cleanupSocket address = { state := l.removed address n }) ∨
    ∃ e, l.cleanupSocket address = { state := l, raised := some e } := by
  unfold cleanupSocket
  cases hl : l.connections.lookup address with
  | none => exact .inr ⟨_, rfl⟩
  | some n =>
    unfold unregister
    cases hk : l.lookupKey n with
    | error e => exact .inr ⟨e, by simp only [hk]⟩
    | ok fd =>
      obtain ⟨rfl, hkey⟩ := lookupKey_ok hk
      exact .inl ⟨n, rfl, hkey, by simp [hk, removed, setConn]⟩

theorem cleanupSocket_phase (address : Peer) : (l.cleanupSocket address).state.phase = l.phase := by
  rcases cleanupSocket_cases (l := l) address with ⟨n, -, -, hout⟩ | ⟨e, hout⟩
  · rw [hout]
    rfl
  · rw [hout]

/-! ## The callback of a connection -/

/-- What the callback leaves behind: a change of its own connection, also when it raises. -/
def OwnOutcome (l : LocalProxy) (n : Nat) (mask : Mask) (io : ConnIO)
    (puts : List (Nat × QueuedRelayMessage)) (out : Outcome LocalProxy) : Prop :=
  ∃ l', OwnChange l n mask io l' (puts ++ out.puts) ∧ (out.raised = none ∧ out.state = l' ∨
    ∃ e fdToKey wakeupPending, out.raised = some e ∧ out.state = { l' with fdToKey, wakeupPending })

variable {n : Nat} {mask : Mask} {io : ConnIO} {puts : List (Nat × QueuedRelayMessage)}

theorem OwnOutcome.of_change {out : Outcome LocalProxy}
    (h : OwnChange l n mask io out.state (puts ++ out.puts)) : OwnOutcome l n mask io puts out := by
  refine ⟨out.state, h, ?_⟩
  cases hr : out.raised with
  | none => exact .inl ⟨rfl, rfl⟩
  | some e => exact .inr ⟨e, _, _, rfl, rfl⟩

theorem handleWrite_change (send : Except OSError Nat) (ho : (l'.conns n).sck.isOpen)
    (hq : (l'.conns n).sendq ≠ []) (h : OwnChange l n mask io l' puts) :
    OwnOutcome l n mask io puts (l'.handleWrite n send) := by
  cases send with
  | ok len =>
    have hflush := OwnChange.flush len ho hq h
    unfold handleWrite
    simp only
    by_cases hd : (l'.conns n).sendq.drop len = []
    · rw [if_pos hd]
      let l₁ := l'.setConn n { l'.conns n with
        sck := (l'.conns n).sck.send ((l'.conns n).sendq.take len)
        sendq := (l'.conns n).sendq.drop len, writeEnabled := false }
      have hl₁ : (l'.flushed n len) =
          ({ l₁ with fdToKey := l₁.setEvents n .r } : LocalProxy).wakeup := by
        simp [flushed, hd, l₁, LocalProxy.setConn, setEvents, LocalProxy.wakeup]
      rcases modify_eq (l := l₁) n .r with ⟨hm, -⟩ | ⟨e, fdToKey, hm⟩
      · apply OwnOutcome.of_change
        rw [show l'.setConn n _ = l₁ from rfl, hm]
        simpa [← hl₁] using hflush
      · rw [show l'.setConn n _ = l₁ from rfl, hm]
        refine ⟨_, by simpa using hflush, .inr ⟨e, fdToKey, l'.wakeupPending, rfl, ?_⟩⟩
        rw [hl₁]
        rfl
    · rw [if_neg hd]
      apply OwnOutcome.of_change
      simpa [flushed, hd, LocalProxy.setConn] using hflush
  | error e =>
    cases e with
    | connectionReset | brokenPipe =>
      apply OwnOutcome.of_change
      exact .hangup _ (Sock.close_isOpen _) ho h
    | _ =>
      apply OwnOutcome.of_change
      simpa [handleWrite] using h

theorem handleIoEvent_change (mask : Mask) (io : ConnIO) (ho : (l.conns n).sck.isOpen) :
    OwnOutcome l n mask io [] (l.handleIoEvent n mask io) := by
  have hwrite {l' : LocalProxy} {puts : List (Nat × QueuedRelayMessage)}
      (ho : (l'.conns n).sck.isOpen) (h : OwnChange l n mask io l' puts) :
      OwnOutcome l n mask io puts (if mask.write && (l'.conns n).sendq ≠ [] then
        l'.handleWrite n io.send else { state := l' }) := by
    split
    · rename_i hw
      simp only [Bool.and_eq_true, decide_eq_true_eq] at hw
      exact handleWrite_change io.send ho hw.2 h
    · apply OwnOutcome.of_change
      simpa using h
  unfold handleIoEvent
  by_cases hm : mask.read = true
  · simp only [hm, if_true]
    cases hr : io.recv with
    | ok data =>
      simp only
      by_cases hd : data = []
      · apply OwnOutcome.of_change
        subst hd
        simp only [if_true]
        exact .hangup _ (Sock.close_isOpen _) ho .refl
      · have hrefl : OwnChange l n mask io l [] := .refl
        have hrecv := OwnChange.recv data hd ho hrefl
        rw [if_neg hd]
        obtain ⟨l', hc, hout⟩ := hwrite (by simpa [LocalProxy.setConn] using ho) hrecv
        exact ⟨l', by simpa [ProxiedConnection.report] using hc, hout⟩
    | error e =>
      cases e with
      | connectionReset =>
        apply OwnOutcome.of_change
        exact .reset hm (.inl hr) ho .refl
      | brokenPipe =>
        apply OwnOutcome.of_change
        exact .reset hm (.inr hr) ho .refl
      | blockingIo => exact hwrite ho .refl
      | _ =>
        apply OwnOutcome.of_change
        exact .refl
  · simp only [hm, Bool.false_eq_true, if_false]
    exact hwrite ho .refl

/-! ## The steps -/

theorem handleItem_change {n : Nat} {m : QueuedRelayMessage} {rest : List QueuedRelayMessage}
    {io : ConnectIO} (ht : l.toLocal = m :: rest)
    (hguard : m.kind = .newConnection → l.socketAllowed n io = true) (phase : LocalPhase) :
    Change l (.item n io) (LocalProxy.after ({ l with toLocal := rest }.handleItem n m io) phase)
      ({ l with toLocal := rest }.handleItem n m io).puts := by
  unfold handleItem
  cases hk : m.kind with
  | newConnection =>
    let l₀ : LocalProxy := { l with toLocal := rest }
    change Change l (.item n io) (LocalProxy.after (l₀.newConnection n m io) phase)
      (l₀.newConnection n m io).puts
    cases hs : io.socket with
    | error e =>
      rw [newConnection_lost hs]
      exact .unmade n m rest io e rfl hs ht hk
    | ok fd =>
      obtain ⟨hn, hfree⟩ := (socketAllowed_ok hs).mp (hguard hk)
      rw [newConnection_made hs]
      cases hkey : (l.fdToKey fd).isSome with
      | true =>
        rw [enterConnection_taken (l := l₀) hkey]
        exact .clash n fd m rest io rfl hs ht hk hn hfree hkey
      | false =>
        have hmade (phase : LocalPhase) :
            Change l (.item n io) { l₀.enteredAt n m fd with phase } [] :=
          .made n fd m rest io phase rfl hs ht hk hn hfree hkey
        cases io.connect with
        | ok _ =>
          rw [enterConnection_free (l := l₀) hkey]
          exact hmade phase
        | error e =>
          cases e with
          | connectionRefused =>
            rw [enterConnection_refused (l := l₀) hkey]
            exact .refused n fd m rest io phase rfl hs ht hk hn hfree hkey
          | _ =>
            rw [enterConnection_free (l := l₀) hkey]
            exact hmade _
  | message =>
    let l₀ : LocalProxy := { l with toLocal := rest }
    change Change l (.item n io) (LocalProxy.after (l₀.message n m) phase) (l₀.message n m).puts
    unfold message
    cases hl : l₀.connections.lookup m.peer with
    | none => exact .unknown n m rest io phase rfl ht hk hl
    | some k =>
      simp only
      cases hw : (l.conns k).writeEnabled with
      | true =>
        have hpush := Change.pushed n k m rest io phase rfl ht hk hl (by simp [hw])
        rw [if_pos rfl]
        simpa [LocalProxy.pushed, hw, LocalProxy.setConn, LocalProxy.after, l₀] using hpush
      | false =>
        rw [if_neg Bool.false_ne_true]
        let l₁ := l₀.setConn k { l₀.conns k with
          sendq := (l₀.conns k).sendq ++ m.data, writeEnabled := true }
        have hpushed : l₀.pushed k m.data = { l₁ with fdToKey := l₁.setEvents k .rw } := by
          simp [LocalProxy.pushed, show (l₀.conns k).writeEnabled = false from hw, l₁, setEvents,
            LocalProxy.setConn]
        have hopen : (l₁.conns k).sck.isOpen ∨ l₁.Keyed k →
            (l.conns k).sck.isOpen ∨ l.Keyed k := by
          simp [l₁, l₀, Keyed, LocalProxy.setConn]
        rw [show l₀.setConn k _ = l₁ from rfl]
        rcases modify_eq (l := l₁) k .rw with ⟨hm, hkey⟩ | ⟨e, fdToKey, hm⟩
        · rw [hm, ← hpushed]
          exact .pushed n k m rest io phase rfl ht hk hl fun _ => hopen hkey
        · rw [hm]
          exact .jammed n k m rest io e fdToKey rfl ht hk hl
  | closeConnection =>
    simp only
    rcases cleanupSocket_cases (l := { l with toLocal := rest }) m.peer with
      ⟨k, hl, hkey, hout⟩ | ⟨e, hout⟩
    · rw [hout]
      exact .removed n k m rest io phase rfl ht hk hl hkey
    · rw [hout]
      exact .uncleaned n m rest io e rfl ht hk

/-- The events still to be handled are about open sockets. -/
def Pending (l : LocalProxy) : Prop :=
  ∀ events n mask, l.phase = .dispatch events → (.conn n, mask) ∈ events → (l.conns n).sck.isOpen

theorem step_change {close : Bool} {a : LocalAction} {puts : List (Nat × QueuedRelayMessage)}
    (hpend : l.Pending) (h : l.step close a = some (l', puts)) : Change l a l' puts := by
  cases step_moves h with
  | item _ ht hfree =>
    refine handleItem_change ht (fun hk => ?_) _
    simpa [hk] using hfree
  | @io n mask events io hp =>
    have ho := hpend _ n mask hp List.mem_cons_self
    obtain ⟨l₁, hc, hout⟩ := handleIoEvent_change mask io ho
    rw [List.nil_append] at hc
    rcases hout with ⟨hr, hs⟩ | ⟨e, fdToKey, wakeupPending, hr, hs⟩
    · unfold LocalProxy.after
      rw [hr, hs]
      exact .own n mask events io hp rfl hc
    · unfold LocalProxy.after
      rw [hr, hs]
      have hown := Change.own n mask events io hp rfl hc
      have hcrash := hown.crash e fdToKey wakeupPending
      exact hcrash
  | @drops addr n hp hf hn hr =>
    rcases cleanupSocket_cases (l := l) addr with ⟨k, hl, hkey, hout⟩ | ⟨e, hout⟩
    · obtain rfl : k = n := by rw [← hn, hl, Option.getD_some]
      rw [hout]
      exact .dropped addr k hp rfl hf hl hkey
    · rw [hout] at hr
      cases hr
  | @dropFails addr e _ _ hr =>
    rcases cleanupSocket_cases (l := l) addr with ⟨n, -, -, hout⟩ | ⟨e, hout⟩
    · rw [hout] at hr
      cases hr
    · rw [hout]
      exact .control _ _
  | _ => exact .control _ _

end
end LocalProxy
end PortPort
