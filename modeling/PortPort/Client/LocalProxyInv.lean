import PortPort.Lib.Tunnel
import PortPort.Client.LocalProxy
import PortPort.Server.RelayInv

/-! # What the local proxy's table, selector and sockets say about each other -/

namespace PortPort
open Function (update)

namespace LocalProxy

/-- The local proxy's ends of the proxied connections. -/
def ends (l : LocalProxy) (n : Nat) : Tunnel.End UInt8 where
  received := (l.conns n).sck.received
  sent := (l.conns n).sck.sent
  pend := (l.conns n).sendq

structure Inv (l : LocalProxy) : Prop where
  entry : l.connections.lookup k = some n → n ∈ l.created ∧ (l.conns n).addr = k
  conn : n ∈ l.created →
    (0 ≤ (l.conns n).addr.2 ∧ (l.conns n).addr.2 < 65536) ∧ (l.conns n).relayId = l.remotePort
  registered : l.fdToKey fd = some (n, mask) → n ∈ l.created

/-- The events still to be handled are about different sockets, all of them open. -/
def Ready (l : LocalProxy) (events : List (LocalKey × Mask)) : Prop :=
  (events.map Prod.fst).Nodup ∧
    ∀ n mask, (.conn n, mask) ∈ events → n ∈ l.created ∧ (l.conns n).sck.isOpen

/-- Every connection in the table is registered under its descriptor. -/
def Registered (l : LocalProxy) : Prop :=
  ∀ k n, l.connections.lookup k = some n → (l.fdToKey (l.conns n).fd).map Prod.fst = some n

/-- `l'` differs from `l` in nothing but the bytes of the connections, the flags of the connection
`n` and its socket, and the events for which sockets are registered. -/
structure Frame (n : Nat) (l l' : LocalProxy) : Prop where
  phase : l'.phase = l.phase
  remotePort : l'.remotePort = l.remotePort
  toLocal : l'.toLocal = l.toLocal
  lost : l'.lost = l.lost
  connections : l'.connections = l.connections
  created : l'.created = l.created
  addr m : (l'.conns m).addr = (l.conns m).addr
  relayId m : (l'.conns m).relayId = (l.conns m).relayId
  fd m : (l'.conns m).fd = (l.conns m).fd
  refused m : (l'.conns m).refused = (l.conns m).refused
  isOpen m : m ≠ n → (l'.conns m).sck.isOpen = (l.conns m).sck.isOpen
  fdToKey fd : (l'.fdToKey fd).map Prod.fst = (l.fdToKey fd).map Prod.fst

namespace Frame

theorem refl (n : Nat) (l : LocalProxy) : Frame n l l := by constructor <;> intros <;> rfl

theorem trans {n : Nat} {l l' l'' : LocalProxy} (h : Frame n l l') (h' : Frame n l' l'') :
    Frame n l l'' where
  phase := h'.phase.trans h.phase
  remotePort := h'.remotePort.trans h.remotePort
  toLocal := h'.toLocal.trans h.toLocal
  lost := h'.lost.trans h.lost
  connections := h'.connections.trans h.connections
  created := h'.created.trans h.created
  addr m := (h'.addr m).trans (h.addr m)
  relayId m := (h'.relayId m).trans (h.relayId m)
  fd m := (h'.fd m).trans (h.fd m)
  refused m := (h'.refused m).trans (h.refused m)
  isOpen m hm := (h'.isOpen m hm).trans (h.isOpen m hm)
  fdToKey fd := (h'.fdToKey fd).trans (h.fdToKey fd)

theorem setConn {l : LocalProxy} {n : Nat} {c : ProxiedConnection}
    (ha : c.addr = (l.conns n).addr) (hr : c.relayId = (l.conns n).relayId)
    (hf : c.fd = (l.conns n).fd) (hr' : c.refused = (l.conns n).refused) :
    Frame n l (l.setConn n c) := by
  have hc (m : Nat) : (l.setConn n c).conns m = if m = n then c else l.conns m :=
    Function.update_apply ..
  constructor <;> try intros; rfl
  case isOpen =>
    intro m hm
    rw [hc, if_neg hm]
  all_goals
    intro m
    rw [hc]
    split
    · rename_i h
      subst h
      assumption
    · rfl

theorem wakeup (n : Nat) (l : LocalProxy) : Frame n l l.wakeup := by
  constructor <;> intros <;> rfl

end Frame

/-- What `modify` does when it does not raise, and that it touches nothing but the map. -/
theorem modify_cases (l : LocalProxy) (n : Nat) (events : Mask) :
    (∃ l', l.modify n events = { state := l' } ∧ Frame n l l' ∧ l'.conns = l.conns) ∨
    ∃ e fdToKey, l.modify n events = { state := { l with fdToKey }, raised := some e } ∧
      ∀ fd x, fdToKey fd = some x → l.fdToKey fd = some x := by
  unfold modify
  cases hk : l.lookupKey n with
  | error e => exact .inr ⟨e, l.fdToKey, by simp, fun _ _ h => h⟩
  | ok fd =>
    simp only
    split
    · refine .inr ⟨_, _, rfl, fun fd' x h => ?_⟩
      rw [Function.update_apply] at h
      split at h
      · cases h
      · exact h
    · refine .inl ⟨_, rfl, ?_, rfl⟩
      constructor <;> try intros; rfl
      intro fd'
      simp only [Function.update_apply]
      split
      · rename_i h
        subst h
        cases l.fdToKey fd' <;> rfl
      · rfl

theorem Inv.frame {l l' : LocalProxy} {n : Nat} (h : Inv l) (hf : Frame n l l') : Inv l' where
  entry := by
    intro k m hl
    rw [hf.connections] at hl
    rw [hf.created, hf.addr]
    exact h.entry hl
  conn := by
    intro m hm
    rw [hf.addr, hf.relayId, hf.remotePort]
    exact h.conn (hf.created ▸ hm)
  registered := by
    intro fd m mask hk
    have hm := hf.fdToKey fd
    rw [hk] at hm
    cases hk' : l.fdToKey fd with
    | none => simp [hk'] at hm
    | some x =>
      obtain ⟨m', mask'⟩ := x
      obtain rfl : m = m' := by simpa [hk'] using hm
      exact hf.created ▸ h.registered hk'

/-- A callback leaves the sockets of the other events open. -/
theorem Ready.tail {l l' : LocalProxy} {n : Nat} {mask : Mask} {events : List (LocalKey × Mask)}
    (h : Ready l ((.conn n, mask) :: events)) (hf : Frame n l l') : Ready l' events := by
  obtain ⟨hd, ho⟩ := h
  rw [List.map_cons, List.nodup_cons] at hd
  refine ⟨hd.2, fun m mask' hm => ?_⟩
  have hmn : m ≠ n := by
    rintro rfl
    exact hd.1 (List.mem_map.mpr ⟨_, hm, rfl⟩)
  rw [hf.created, hf.isOpen m hmn]
  exact ho m mask' (List.mem_cons_of_mem _ hm)

theorem Registered.frame {l l' : LocalProxy} {n : Nat} (h : Registered l) (hf : Frame n l l') :
    Registered l' := by
  intro k m hl
  rw [hf.fd, hf.fdToKey]
  exact h k m (hf.connections ▸ hl)

/-! ## The handlers -/

/-- What `cleanup_socket` leaves behind. -/
def removed (l : LocalProxy) (address : Peer) (n : Nat) : LocalProxy :=
  { l with
    connections := l.connections.erase address
    fdToKey := update l.fdToKey (l.conns n).fd none
    conns := update l.conns n { l.conns n with sck := (l.conns n).sck.close } }

theorem cleanupSocket_keyed {l : LocalProxy} {address : Peer} {n : Nat}
    (hl : l.connections.lookup address = some n)
    (hk : (l.fdToKey (l.conns n).fd).map Prod.fst = some n) :
    l.cleanupSocket address = { state := l.removed address n } := by
  have hkey : l.lookupKey n = .ok (l.conns n).fd := by
    unfold lookupKey
    have : (l.fdToKey (l.conns n).fd).isSome := by
      cases h : l.fdToKey (l.conns n).fd <;> simp_all
    simp [this, hk]
  simp [cleanupSocket, hl, unregister, hkey, removed, setConn]

theorem cleanupSocket_eq {l : LocalProxy} {address : Peer} {n : Nat} (hr : Registered l)
    (hl : l.connections.lookup address = some n) :
    l.cleanupSocket address = { state := l.removed address n } :=
  cleanupSocket_keyed hl (hr address n hl)

@[simp] theorem removed_addr (l : LocalProxy) (address : Peer) (n m : Nat) :
    ((l.removed address n).conns m).addr = (l.conns m).addr := by
  simp only [removed, Function.update_apply]
  split
  · rename_i h
    rw [h]
  · rfl

@[simp] theorem removed_relayId (l : LocalProxy) (address : Peer) (n m : Nat) :
    ((l.removed address n).conns m).relayId = (l.conns m).relayId := by
  simp only [removed, Function.update_apply]
  split
  · rename_i h
    rw [h]
  · rfl

@[simp] theorem removed_fd (l : LocalProxy) (address : Peer) (n m : Nat) :
    ((l.removed address n).conns m).fd = (l.conns m).fd := by
  simp only [removed, Function.update_apply]
  split
  · rename_i h
    rw [h]
  · rfl

@[simp] theorem removed_refused (l : LocalProxy) (address : Peer) (n m : Nat) :
    ((l.removed address n).conns m).refused = (l.conns m).refused := by
  simp only [removed, Function.update_apply]
  split
  · rename_i h
    rw [h]
  · rfl

theorem removed_isOpen (l : LocalProxy) (address : Peer) (n m : Nat) :
    ((l.removed address n).conns m).sck.isOpen = ((l.conns m).sck.isOpen && m ≠ n) := by
  simp only [removed, Function.update_apply]
  split
  · rename_i h
    simp [h]
  · rename_i h
    simp [h]

@[simp] theorem ends_removed (l : LocalProxy) (address : Peer) (n : Nat) :
    (l.removed address n).ends = l.ends := by
  funext m
  simp only [ends, removed, Function.update_apply]
  split
  · rename_i h
    simp [h]
  · rfl

theorem Inv.removed {l : LocalProxy} {address : Peer} {n : Nat} (h : Inv l) :
    Inv (l.removed address n) where
  entry := by
    intro k m hk
    rw [removed_addr]
    simp only [LocalProxy.removed, Dict.lookup_erase] at hk
    split at hk
    · cases hk
    · exact h.entry hk
  conn := by
    intro m hm
    rw [removed_addr, removed_relayId]
    exact h.conn hm
  registered := by
    intro fd m mask hk
    simp only [LocalProxy.removed, Function.update_apply] at hk
    split at hk
    · cases hk
    · exact h.registered hk

theorem Registered.removed {l : LocalProxy} {address : Peer} {n : Nat} (h : Inv l)
    (hr : Registered l) (hl : l.connections.lookup address = some n) :
    Registered (l.removed address n) := by
  intro k m hk
  rw [removed_fd]
  simp only [LocalProxy.removed, Dict.lookup_erase] at hk
  split at hk
  · cases hk
  · rename_i hne
    have hm := hr k m hk
    have hfd : (l.conns m).fd ≠ (l.conns n).fd := by
      intro he
      rw [he, hr address n hl] at hm
      obtain rfl := Option.some.inj hm
      exact hne ((h.entry hk).2.symm.trans (h.entry hl).2)
    simp only [LocalProxy.removed, Function.update_apply, if_neg hfd]
    exact hm

/-- A connection entered in the table, before it is registered. -/
def entered (l : LocalProxy) (n : Nat) (m : QueuedRelayMessage) (fd : Nat) : LocalProxy :=
  { l with
    conns := update l.conns n { addr := m.peer, relayId := m.relayPort, fd }
    created := n :: l.created
    connections := l.connections.set m.peer n }

theorem entered_conns_of_ne {l : LocalProxy} {n k fd : Nat} {m : QueuedRelayMessage} (h : k ≠ n) :
    (l.entered n m fd).conns k = l.conns k := Function.update_of_ne h ..

theorem entered_conns_self {l : LocalProxy} {n fd : Nat} {m : QueuedRelayMessage} :
    (l.entered n m fd).conns n = { addr := m.peer, relayId := m.relayPort, fd } :=
  Function.update_self ..

theorem entered_lookup (l : LocalProxy) (n fd : Nat) (m : QueuedRelayMessage) (k : Peer) :
    (l.entered n m fd).connections.lookup k =
      if k = m.peer then some n else l.connections.lookup k := Dict.lookup_set ..

theorem Inv.entered {l : LocalProxy} {n fd : Nat} {m : QueuedRelayMessage} (h : Inv l)
    (hn : n ∉ l.created) (hport : 0 ≤ m.port ∧ m.port < 65536)
    (hrelay : m.relayPort = l.remotePort) : Inv (l.entered n m fd) where
  entry := by
    intro k x hl
    rw [entered_lookup] at hl
    split at hl
    · rename_i hk
      obtain rfl := Option.some.inj hl
      exact ⟨List.mem_cons_self, by rw [entered_conns_self, hk]⟩
    · obtain ⟨hx, ha⟩ := h.entry hl
      have hxn : x ≠ n := fun he => hn (he ▸ hx)
      exact ⟨List.mem_cons_of_mem _ hx, by rw [entered_conns_of_ne hxn, ha]⟩
  conn := by
    intro x hx
    by_cases hxn : x = n
    · rw [hxn, entered_conns_self]
      exact ⟨hport, hrelay⟩
    · rw [entered_conns_of_ne hxn]
      exact h.conn ((List.mem_cons.mp hx).resolve_left hxn)
  registered hk := List.mem_cons_of_mem _ (h.registered hk)

/-- The connection entered, registered under its free descriptor. -/
def enteredAt (l : LocalProxy) (n : Nat) (m : QueuedRelayMessage) (fd : Nat) : LocalProxy :=
  { l.entered n m fd with fdToKey := update l.fdToKey fd (some (n, .r)) }

section
variable {l : LocalProxy} {n k fd : Nat} {m : QueuedRelayMessage}

theorem enteredAt_conns_self :
    (l.enteredAt n m fd).conns n = { addr := m.peer, relayId := m.relayPort, fd } :=
  entered_conns_self

theorem enteredAt_conns_old (hn : n ∉ l.created) (hk : k ∈ l.created) :
    (l.enteredAt n m fd).conns k = l.conns k :=
  entered_conns_of_ne fun he => hn (he ▸ hk)

theorem enteredAt_fdToKey (x : Nat) : (l.enteredAt n m fd).fdToKey x =
    if x = fd then some (n, .r) else l.fdToKey x := Function.update_apply ..

theorem enteredAt_lookup (p : Peer) : (l.enteredAt n m fd).connections.lookup p =
    if p = m.peer then some n else l.connections.lookup p := entered_lookup l n fd m p

/-- A free descriptor is that of no open socket. -/
theorem fd_ne_of_free (hfree : l.fdFree fd = true) (hk : k ∈ l.created)
    (ho : (l.conns k).sck.isOpen = true) : (l.conns k).fd ≠ fd := by
  have hall := List.all_eq_true.mp hfree k hk
  simpa [ho] using hall

end

theorem register_entered (l : LocalProxy) (n : Nat) (m : QueuedRelayMessage) (fd : Nat) :
    (l.entered n m fd).register n .r =
      if (l.fdToKey fd).isSome then { state := l.entered n m fd, raised := some .keyError }
      else { state := l.enteredAt n m fd } := by
  unfold register
  rw [entered_conns_self]
  rfl

theorem Inv.enteredAt {l : LocalProxy} {n fd : Nat} {m : QueuedRelayMessage} (h : Inv l)
    (hn : n ∉ l.created) (hport : 0 ≤ m.port ∧ m.port < 65536)
    (hrelay : m.relayPort = l.remotePort) : Inv (l.enteredAt n m fd) :=
  { h.entered hn hport hrelay with
    registered := by
      intro fd' x mask hk
      rw [enteredAt_fdToKey] at hk
      split at hk
      · cases hk
        exact List.mem_cons_self
      · exact List.mem_cons_of_mem _ (h.registered hk) }

theorem Registered.enteredAt {l : LocalProxy} {n fd : Nat} {m : QueuedRelayMessage} (h : Inv l)
    (hr : Registered l) (hn : n ∉ l.created) (hfd : (l.fdToKey fd).isSome = false) :
    Registered (l.enteredAt n m fd) := by
  intro k x hl
  rw [enteredAt_lookup] at hl
  rw [enteredAt_fdToKey]
  split at hl
  · obtain rfl := Option.some.inj hl
    rw [enteredAt_conns_self, if_pos rfl]
    rfl
  · have hx := hr k x hl
    rw [enteredAt_conns_old hn (h.entry hl).1, if_neg]
    · exact hx
    · intro he
      rw [he] at hx
      simp_all

theorem Inv.setConn {l : LocalProxy} {n : Nat} {c : ProxiedConnection} (h : Inv l)
    (ha : c.addr = (l.conns n).addr) (hr : c.relayId = (l.conns n).relayId) :
    Inv (l.setConn n c) where
  entry := by
    intro k x hl
    obtain ⟨hx, hk⟩ := h.entry hl
    refine ⟨hx, ?_⟩
    simp only [LocalProxy.setConn, Function.update_apply]
    split
    · rename_i hxn
      rw [ha, ← hxn, hk]
    · exact hk
  conn := by
    intro x hx
    have := h.conn hx
    simp only [LocalProxy.setConn, Function.update_apply]
    split
    · rename_i hxn
      rw [ha, hr, ← hxn]
      exact this
    · exact this
  registered hk := h.registered hk

/-- What a refused connection leaves behind. -/
def refusedAt (l : LocalProxy) (n : Nat) (m : QueuedRelayMessage) (fd : Nat) : LocalProxy :=
  let l := l.enteredAt n m fd
  (l.setConn n { l.conns n with refused := true }).removed m.peer n

theorem refusedAt_conns (l : LocalProxy) (n : Nat) (m : QueuedRelayMessage) (fd x : Nat) :
    (l.refusedAt n m fd).conns x = if x = n then
      { addr := m.peer, relayId := m.relayPort, fd, refused := true, sck := Sock.close {} }
    else l.conns x := by
  simp only [refusedAt, removed, setConn, enteredAt, entered, Function.update_apply, if_true]
  split <;> rfl

theorem newConnection_lost {l : LocalProxy} {n : Nat} {m : QueuedRelayMessage} {io : ConnectIO}
    {e : OSError} (hs : io.socket = .error e) : l.newConnection n m io =
      { state := { l with lost := some m }, raised := some (.os e) } := by
  unfold newConnection
  rw [hs]

theorem newConnection_made {l : LocalProxy} {n fd : Nat} {m : QueuedRelayMessage} {io : ConnectIO}
    (hs : io.socket = .ok fd) : l.newConnection n m io = l.enterConnection n m fd io.connect := by
  unfold newConnection
  rw [hs]

section
variable {l : LocalProxy} {n fd : Nat} {m : QueuedRelayMessage} {connect : Except OSError Unit}

theorem enterConnection_taken (hfd : (l.fdToKey fd).isSome) :
    l.enterConnection n m fd connect = { state := l.entered n m fd, raised := some .keyError } := by
  simp [enterConnection, register, hfd, entered]

theorem enterConnection_free (hfd : (l.fdToKey fd).isSome = false) :
    l.enterConnection n m fd connect = match connect with
      | .ok _ => { state := l.enteredAt n m fd }
      | .error .connectionRefused =>
        let l := l.enteredAt n m fd
        { (l.setConn n { l.conns n with refused := true }).cleanupSocket m.peer with
          puts := [(n, ⟨.closeConnection, m.addr, m.port, [], l.remotePort⟩)] }
      | .error e => { state := l.enteredAt n m fd, raised := some (.os e) } := by
  cases connect with
  | ok _ => simp [enterConnection, register, hfd, enteredAt, entered]
  | error e => cases e <;> simp [enterConnection, register, hfd, enteredAt, entered]

theorem enterConnection_refused (hfd : (l.fdToKey fd).isSome = false) :
    l.enterConnection n m fd (.error .connectionRefused) =
      { state := l.refusedAt n m fd
        puts := [(n, ⟨.closeConnection, m.addr, m.port, [], l.remotePort⟩)] } := by
  let l₁ := l.enteredAt n m fd
  let l₂ := l₁.setConn n { l₁.conns n with refused := true }
  have hl₂ : l₂.connections.lookup m.peer = some n :=
    (entered_lookup l n fd m m.peer).trans (if_pos rfl)
  have hk₂ : (l₂.fdToKey (l₂.conns n).fd).map Prod.fst = some n := by
    simp [l₂, l₁, setConn, enteredAt, entered]
  rw [enterConnection_free hfd]
  simp only
  rw [show l₁.setConn n _ = l₂ from rfl, cleanupSocket_keyed hl₂ hk₂]
  rfl

end

/-- The table and the map before the clean-up of a refused connection. -/
theorem registered_refusing {l : LocalProxy} {n fd : Nat} {m : QueuedRelayMessage} (h : Inv l)
    (hr : Registered l) (hn : n ∉ l.created) (hfd : (l.fdToKey fd).isSome = false) :
    let l₁ := l.enteredAt n m fd
    let l₂ := l₁.setConn n { l₁.conns n with refused := true }
    Registered l₂ ∧ l₂.connections.lookup m.peer = some n := by
  refine ⟨fun k x hl => ?_, ?_⟩
  · have := hr.enteredAt h hn hfd k x hl
    simp only [setConn, Function.update_apply]
    split
    · rename_i hx
      subst hx
      exact this
    · exact this
  · exact (entered_lookup l n fd m m.peer).trans (if_pos rfl)

theorem Inv.refusedAt {l : LocalProxy} {n fd : Nat} {m : QueuedRelayMessage} (h : Inv l)
    (hn : n ∉ l.created) (hport : 0 ≤ m.port ∧ m.port < 65536)
    (hrelay : m.relayPort = l.remotePort) : Inv (l.refusedAt n m fd) := by
  have h₁ : Inv (l.enteredAt n m fd) := h.enteredAt hn hport hrelay
  have h₂ : Inv ((l.enteredAt n m fd).setConn n
    { (l.enteredAt n m fd).conns n with refused := true }) := h₁.setConn rfl rfl
  exact h₂.removed

theorem Registered.refusedAt {l : LocalProxy} {n fd : Nat} {m : QueuedRelayMessage} (h : Inv l)
    (hr : Registered l) (hn : n ∉ l.created) (hport : 0 ≤ m.port ∧ m.port < 65536)
    (hrelay : m.relayPort = l.remotePort) (hfd : (l.fdToKey fd).isSome = false) :
    Registered (l.refusedAt n m fd) := by
  obtain ⟨hr₂, hl⟩ := registered_refusing (m := m) h hr hn hfd
  have h₁ : Inv (l.enteredAt n m fd) := h.enteredAt hn hport hrelay
  have h₂ : Inv ((l.enteredAt n m fd).setConn n
    { (l.enteredAt n m fd).conns n with refused := true }) := h₁.setConn rfl rfl
  exact hr₂.removed h₂ hl

end LocalProxy
end PortPort
