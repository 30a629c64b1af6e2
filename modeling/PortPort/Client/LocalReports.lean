import PortPort.Client.LocalInterest

/-! # What the local proxy reports about a connection

Each connection has its own share of the messages on `to_proxy`: those about its address from its
NEW_CONNECTION to the next one for this address. The share is a run of MESSAGEs and at most one
CLOSE_CONNECTION behind them, and the CLOSE_CONNECTION is there once the connection has ended by
anything but a CLOSE_CONNECTION of the relay. -/

namespace PortPort
open Function (update)
open LocalProxy (LocalAction ConnIO)

namespace LocalProxy

/-- The connection of the last NEW_CONNECTION about the address. -/
def latest (l : LocalProxy) (addr : Peer) : Option Nat :=
  l.created.find? fun n => (l.conns n).addr = addr

/-- Add a message put on `to_proxy` to the share of the connection it belongs to. -/
def recordOne (l : LocalProxy) (q : QueuedRelayMessage) (reported : Nat → List RelayMessageTypes) :
    Nat → List RelayMessageTypes :=
  match l.latest q.peer with
  | some n => update reported n (reported n ++ [q.kind])
  | none => reported

def record (l : LocalProxy) (puts : List (Nat × QueuedRelayMessage))
    (reported : Nat → List RelayMessageTypes) : Nat → List RelayMessageTypes :=
  puts.foldl (fun reported p => l.recordOne p.2 reported) reported

/-- The action takes a CLOSE_CONNECTION of the relay for the connection `n`, whose socket is
open. -/
def closesOpen (l : LocalProxy) (a : LocalAction) (n : Nat) : Bool :=
  match a, l.toLocal with
  | .item _ _, m :: _ =>
    m.kind = .closeConnection && l.connections.lookup m.peer = some n && (l.conns n).sck.isOpen
  | _, _ => false

end LocalProxy

/-- A run of the local proxy with the shares of its connections. -/
structure LocalLog where
  run : LocalRun
  reported : Nat → List RelayMessageTypes := fun _ => []
  /-- a CLOSE_CONNECTION of the relay has ended the connection -/
  relayClosed : Nat → Bool := fun _ => false

namespace LocalLog
open LocalRun (Event)

def step (s : LocalLog) : Event → Option LocalLog
  | .thread a =>
    (s.run.proxy.step s.run.close a).map fun (proxy, puts) =>
      { run := { s.run with proxy }
        reported := proxy.record puts s.reported
        relayClosed := fun n => s.relayClosed n || s.run.proxy.closesOpen a n }
  | e => (s.run.step e).map fun run => { s with run }

def Init (s : LocalLog) : Prop := ∃ remotePort, s = { run := LocalRun.start remotePort }

abbrev Reachable (P : LocalLog → Event → Prop) : LocalLog → Prop :=
  Transition.Reach (Transition.Fires step) P Init

/-- The share of a connection: MESSAGEs, and at most one CLOSE_CONNECTION behind them. -/
def Share (kinds : List RelayMessageTypes) : Prop :=
  ∃ k, kinds = List.replicate k .message ∨
    kinds = List.replicate k .message ++ [.closeConnection]

end LocalLog

namespace LocalProxy
open LocalLog (Share)

/-- What the shares and the connections say about each other. -/
structure Accounted (l : LocalProxy) (reported : Nat → List RelayMessageTypes)
    (relayClosed : Nat → Bool) : Prop where
  fresh : n ∉ l.created → reported n = []
  message : n ∈ l.created → (l.conns n).sck.isOpen → ∃ k, reported n = List.replicate k .message
  latest : n ∈ l.created → (l.conns n).sck.isOpen → l.latest (l.conns n).addr = some n ∧
    l.connections.lookup (l.conns n).addr = some n
  ended : n ∈ l.created → (l.conns n).sck.isOpen = false →
    Share (reported n) ∧ (.closeConnection ∈ reported n ∨ relayClosed n = true)

variable {l l' : LocalProxy} {a : LocalAction} {n : Nat} {mask : Mask} {io : ConnIO}
  {puts : List (Nat × QueuedRelayMessage)} {reported : Nat → List RelayMessageTypes}
  {relayClosed : Nat → Bool}

theorem latest_mem {addr : Peer} (h : l.latest addr = some n) :
    n ∈ l.created ∧ (l.conns n).addr = addr :=
  ⟨List.mem_of_find?_eq_some h, by simpa using List.find?_some h⟩

theorem latest_congr (hcreated : l'.created = l.created)
    (haddr : ∀ m, (l'.conns m).addr = (l.conns m).addr) : l'.latest = l.latest := by
  funext addr
  simp only [LocalProxy.latest, hcreated, haddr]

theorem record_congr (h : l'.latest = l.latest) (puts : List (Nat × QueuedRelayMessage)) :
    l'.record puts reported = l.record puts reported := by
  have hone : l'.recordOne = l.recordOne := by
    unfold recordOne
    rw [h]
  rw [record, record, hone]

theorem recordOne_congr (h : l'.latest = l.latest) (q : QueuedRelayMessage) :
    l'.recordOne q reported = l.recordOne q reported := by
  unfold recordOne
  rw [h]

theorem record_append (puts : List (Nat × QueuedRelayMessage)) (k : Nat) (q : QueuedRelayMessage) :
    l.record (puts ++ [(k, q)]) reported = l.recordOne q (l.record puts reported) := by
  rw [record, List.foldl_append]
  rfl

theorem share_message {kinds : List RelayMessageTypes}
    (h : ∃ k, kinds = List.replicate k .message) :
    ∃ k, kinds ++ [.message] = List.replicate k .message := by
  obtain ⟨k, rfl⟩ := h
  exact ⟨k + 1, List.replicate_succ'.symm⟩

theorem share_close {kinds : List RelayMessageTypes}
    (h : ∃ k, kinds = List.replicate k .message) : Share (kinds ++ [.closeConnection]) := by
  obtain ⟨k, rfl⟩ := h
  exact ⟨k, .inr rfl⟩

/-- Nothing has changed that the shares are about. -/
theorem Accounted.congr (h : l.Accounted reported relayClosed) (hcreated : l'.created = l.created)
    (haddr : ∀ m, (l'.conns m).addr = (l.conns m).addr)
    (hopen : ∀ m, (l'.conns m).sck.isOpen = (l.conns m).sck.isOpen)
    (hconnections : l'.connections = l.connections) : l'.Accounted reported relayClosed where
  fresh := by
    intro n hn
    exact h.fresh (hcreated ▸ hn)
  message := by
    intro n hn ho
    exact h.message (hcreated ▸ hn) ((hopen n).symm.trans ho)
  latest := by
    intro n hn ho
    rw [latest_congr hcreated haddr, hconnections, haddr]
    exact h.latest (hcreated ▸ hn) ((hopen n).symm.trans ho)
  ended := by
    intro n hn ho
    exact h.ended (hcreated ▸ hn) ((hopen n).symm.trans ho)

/-- More connections may have been closed by the relay. -/
theorem Accounted.mono (h : l.Accounted reported relayClosed) {relayClosed' : Nat → Bool}
    (hmono : ∀ n, relayClosed n = true → relayClosed' n = true) :
    l.Accounted reported relayClosed' :=
  { h with ended := fun hn ho => ⟨(h.ended hn ho).1, (h.ended hn ho).2.imp_right (hmono _)⟩ }

/-- The connection `n` has been closed, and this has been accounted for. -/
theorem Accounted.closed (h : l.Accounted reported relayClosed) (hn : n ∈ l.created)
    {reported' : Nat → List RelayMessageTypes} {relayClosed' : Nat → Bool}
    (hcreated : l'.created = l.created) (haddr : ∀ m, (l'.conns m).addr = (l.conns m).addr)
    (hopen : ∀ m ≠ n, (l'.conns m).sck.isOpen = (l.conns m).sck.isOpen)
    (hclosed : (l'.conns n).sck.isOpen = false)
    (hlookup : ∀ m ≠ n, l.connections.lookup (l.conns m).addr = some m →
      l'.connections.lookup (l.conns m).addr = some m)
    (hreported : ∀ m ≠ n, reported' m = reported m)
    (hmono : ∀ m, relayClosed m = true → relayClosed' m = true)
    (hended : Share (reported' n) ∧
      (.closeConnection ∈ reported' n ∨ relayClosed' n = true)) :
    l'.Accounted reported' relayClosed' := by
  have hne {m : Nat} (ho : (l'.conns m).sck.isOpen) : m ≠ n := by
    rintro rfl
    cases hclosed.symm.trans ho
  refine ⟨fun {m} hm => ?_, fun {m} hm ho => ?_, fun {m} hm ho => ?_, fun {m} hm ho => ?_⟩
  · rw [hcreated] at hm
    rw [hreported m fun he => hm (he ▸ hn)]
    exact h.fresh hm
  · rw [hreported m (hne ho)]
    exact h.message (hcreated ▸ hm) ((hopen m (hne ho)).symm.trans ho)
  · obtain ⟨hl, ht⟩ := h.latest (hcreated ▸ hm) ((hopen m (hne ho)).symm.trans ho)
    rw [latest_congr hcreated haddr, haddr]
    exact ⟨hl, hlookup m (hne ho) ht⟩
  · by_cases hmn : m = n
    · exact hmn ▸ hended
    · rw [hreported m hmn]
      obtain ⟨hs, he⟩ := h.ended (hcreated ▸ hm) ((hopen m hmn).symm.trans ho)
      exact ⟨hs, he.imp_right (hmono m)⟩

theorem Accounted.recordOne_eq (h : l.Accounted reported relayClosed) (hn : n ∈ l.created)
    (ho : (l.conns n).sck.isOpen) {q : QueuedRelayMessage} (hq : q.peer = (l.conns n).addr) :
    l.recordOne q reported = update reported n (reported n ++ [q.kind]) := by
  unfold recordOne
  rw [hq, (h.latest hn ho).1]

/-- An open connection has put a MESSAGE. -/
theorem Accounted.recordMessage (h : l.Accounted reported relayClosed) (hn : n ∈ l.created)
    (ho : (l.conns n).sck.isOpen) {q : QueuedRelayMessage} (hq : q.peer = (l.conns n).addr)
    (hk : q.kind = .message) : l.Accounted (l.recordOne q reported) relayClosed := by
  rw [h.recordOne_eq hn ho hq, hk]
  refine ⟨fun {m} hm => ?_, fun {m} hm hmo => ?_, h.latest, fun {m} hm hmo => ?_⟩
  · have hmn : m ≠ n := fun he => hm (he ▸ hn)
    rw [Function.update_of_ne hmn]
    exact h.fresh hm
  · by_cases hmn : m = n
    · subst hmn
      rw [Function.update_self]
      exact share_message (h.message hm hmo)
    · rw [Function.update_of_ne hmn]
      exact h.message hm hmo
  · have hmn : m ≠ n := by
      rintro rfl
      cases ho.symm.trans hmo
    rw [Function.update_of_ne hmn]
    exact h.ended hm hmo

/-- The CLOSE_CONNECTION of a connection that was open. -/
theorem Accounted.share_recorded (h : l.Accounted reported relayClosed) (hn : n ∈ l.created)
    (ho : (l.conns n).sck.isOpen) {q : QueuedRelayMessage} (hq : q.peer = (l.conns n).addr)
    (hk : q.kind = .closeConnection) :
    (∀ m ≠ n, l.recordOne q reported m = reported m) ∧ Share (l.recordOne q reported n) ∧
      .closeConnection ∈ l.recordOne q reported n := by
  rw [h.recordOne_eq hn ho hq, hk, Function.update_self]
  exact ⟨fun m hm => Function.update_of_ne hm .., share_close (h.message hn ho), by simp⟩

/-- `cleanup_socket` of the connection `n`, with this accounted for. -/
theorem Accounted.removed (h : l.Accounted reported relayClosed) (hn : n ∈ l.created)
    {address : Peer} (hl : l.connections.lookup address = some n)
    {reported' : Nat → List RelayMessageTypes} {relayClosed' : Nat → Bool}
    (hreported : ∀ m ≠ n, reported' m = reported m)
    (hmono : ∀ m, relayClosed m = true → relayClosed' m = true)
    (hended : Share (reported' n) ∧
      (.closeConnection ∈ reported' n ∨ relayClosed' n = true)) :
    (l.removed address n).Accounted reported' relayClosed' := by
  have hcreated : (l.removed address n).created = l.created := rfl
  refine h.closed hn hcreated (removed_addr l address n) ?_ ?_ ?_ hreported hmono hended
  · intro m hm
    rw [removed_isOpen]
    simp [hm]
  · rw [removed_isOpen]
    simp
  · intro m hm ht
    have hne : (l.conns m).addr ≠ address := by
      intro he
      rw [he] at ht
      exact hm (Option.some.inj (ht.symm.trans hl))
    simp only [LocalProxy.removed, Dict.lookup_erase]
    rwa [if_neg hne]

/-! ## New connections -/

theorem latest_entered {m : QueuedRelayMessage} {fd : Nat} (hn : n ∉ l.created) (addr : Peer) :
    (l.entered n m fd).latest addr = if addr = m.peer then some n else l.latest addr := by
  have hother : ∀ k ∈ l.created, (decide (((l.entered n m fd).conns k).addr = addr)) =
      decide ((l.conns k).addr = addr) := by
    intro k hk
    have hkn : k ≠ n := fun he => hn (he ▸ hk)
    rw [entered_conns_of_ne hkn]
  have hcons : (l.entered n m fd).latest addr =
      (n :: l.created).find? fun k => ((l.entered n m fd).conns k).addr = addr := rfl
  rw [hcons, List.find?_cons, entered_conns_self]
  by_cases ha : addr = m.peer
  · simp [ha]
  · rw [if_neg ha, decide_eq_false (Ne.symm ha)]
    simp only [LocalProxy.latest]
    rw [← List.head?_filter, ← List.head?_filter, List.filter_congr hother]

/-- A NEW_CONNECTION about an address of which no connection is open. -/
theorem Accounted.entered (h : l.Accounted reported relayClosed) {m : QueuedRelayMessage} {fd : Nat}
    (hn : n ∉ l.created)
    (hold : ∀ k ∈ l.created, (l.conns k).sck.isOpen → (l.conns k).addr ≠ m.peer) :
    (l.entered n m fd).Accounted reported relayClosed := by
  have hother {k : Nat} (hk : k ∈ l.created) : (l.entered n m fd).conns k = l.conns k :=
    entered_conns_of_ne fun he => hn (he ▸ hk)
  refine ⟨fun {k} hk => ?_, fun {k} hk ho => ?_, fun {k} hk ho => ?_, fun {k} hk ho => ?_⟩
  · exact h.fresh fun hm => hk (List.mem_cons_of_mem _ hm)
  · rcases List.mem_cons.mp hk with rfl | hk
    · exact ⟨0, h.fresh hn⟩
    · exact h.message hk (hother hk ▸ ho)
  · rw [latest_entered hn, entered_lookup]
    rcases List.mem_cons.mp hk with rfl | hk
    · rw [entered_conns_self]
      exact ⟨if_pos rfl, if_pos rfl⟩
    · rw [hother hk] at ho ⊢
      rw [if_neg (hold k hk ho), if_neg (hold k hk ho)]
      exact h.latest hk ho
  · rcases List.mem_cons.mp hk with rfl | hk
    · rw [entered_conns_self] at ho
      cases ho
    · exact h.ended hk (hother hk ▸ ho)

theorem Accounted.enteredAt (h : l.Accounted reported relayClosed) {m : QueuedRelayMessage}
    {fd : Nat} (hn : n ∉ l.created)
    (hold : ∀ k ∈ l.created, (l.conns k).sck.isOpen → (l.conns k).addr ≠ m.peer) :
    (l.enteredAt n m fd).Accounted reported relayClosed :=
  (h.entered hn hold).congr rfl (fun _ => rfl) (fun _ => rfl) rfl

/-- A NEW_CONNECTION whose connection the local service refuses. -/
theorem Accounted.refusedAt (h : l.Accounted reported relayClosed) {m : QueuedRelayMessage}
    {fd : Nat} (hn : n ∉ l.created)
    (hold : ∀ k ∈ l.created, (l.conns k).sck.isOpen → (l.conns k).addr ≠ m.peer)
    {q : QueuedRelayMessage} (hq : q.peer = m.peer) (hk : q.kind = .closeConnection) :
    (l.refusedAt n m fd).Accounted ((l.refusedAt n m fd).recordOne q reported) relayClosed := by
  let l₁ := l.enteredAt n m fd
  let l₂ := l₁.setConn n { l₁.conns n with refused := true }
  have hentered : l₁.Accounted reported relayClosed := h.enteredAt hn hold
  have hself : l₂.conns n = { l₁.conns n with refused := true } := Function.update_self ..
  have hself₁ : l₁.conns n = { addr := m.peer, relayId := m.relayPort, fd } := entered_conns_self
  have haddr (k : Nat) : (l₂.conns k).addr = (l₁.conns k).addr := by
    by_cases hkn : k = n
    · rw [hkn, hself]
    · rw [show l₂.conns k = l₁.conns k from Function.update_of_ne hkn ..]
  have hopen (k : Nat) : (l₂.conns k).sck.isOpen = (l₁.conns k).sck.isOpen := by
    by_cases hkn : k = n
    · rw [hkn, hself]
    · rw [show l₂.conns k = l₁.conns k from Function.update_of_ne hkn ..]
  have hmarked : l₂.Accounted reported relayClosed := hentered.congr rfl haddr hopen rfl
  have hn₂ : n ∈ l₂.created := List.mem_cons_self
  have ho : (l₂.conns n).sck.isOpen := by
    rw [hself, hself₁]
    rfl
  have hq₂ : q.peer = (l₂.conns n).addr := by
    rw [hself, hself₁, hq]
  have hlookup : l₂.connections.lookup m.peer = some n :=
    (entered_lookup l n fd m m.peer).trans (if_pos rfl)
  obtain ⟨hrep, hshare, hclose⟩ := hmarked.share_recorded hn₂ ho hq₂ hk
  have hlatest : (l.refusedAt n m fd).latest = l₂.latest :=
    latest_congr rfl (removed_addr l₂ m.peer n)
  have hrec : (l.refusedAt n m fd).recordOne q reported = l₂.recordOne q reported := by
    unfold recordOne
    rw [hlatest]
  rw [hrec]
  exact hmarked.removed hn₂ hlookup hrep (fun _ h => h) ⟨hshare, .inl hclose⟩

/-! ## The steps -/

/-- The callback accounts for the end of its connection, unless its `recv` finds the peer gone. -/
theorem OwnChange.accounted (h : l.Accounted reported relayClosed) (hn : n ∈ l.created)
    (hquiet : ¬ (mask.read = true ∧
      (io.recv = .error .connectionReset ∨ io.recv = .error .brokenPipe)))
    (hc : OwnChange l n mask io l' puts) : l'.Accounted (l.record puts reported) relayClosed := by
  induction hc with
  | refl => exact h
  | @recv l₁ puts data hd ho hc ih =>
    have hf := hc.frame
    have hlatest : l₁.latest = l.latest := latest_congr hf.created hf.addr
    have hrec := ih.recordMessage (q := (l₁.conns n).report .message data) (hf.created ▸ hn) ho
      rfl rfl
    have hset : Frame n l₁ (l₁.setConn n { l₁.conns n with sck := (l₁.conns n).sck.recv data }) :=
      .setConn rfl rfl rfl rfl
    rw [record_append, ← recordOne_congr hlatest]
    refine hrec.congr rfl hset.addr (fun m => ?_) rfl
    by_cases hm : m = n
    · subst hm
      simp [LocalProxy.setConn]
    · exact hset.isOpen m hm
  | @flush l₁ puts len ho hq hc ih =>
    have hf := flushed_frame (l := l₁) n len
    refine ih.congr hf.created hf.addr (fun m => ?_) hf.connections
    by_cases hm : m = n
    · subst hm
      simp [LocalProxy.flushed]
    · exact hf.isOpen m hm
  | @hangup l₁ puts sck hs ho hc ih =>
    have hf := hc.frame
    have hlatest : l₁.latest = l.latest := latest_congr hf.created hf.addr
    obtain ⟨hrep, hshare, hclose⟩ := ih.share_recorded
      (q := (l₁.conns n).report .closeConnection []) (hf.created ▸ hn) ho rfl rfl
    have hset : Frame n l₁ (l₁.setConn n { l₁.conns n with sck, closedMsgSent := true }) :=
      .setConn rfl rfl rfl rfl
    rw [record_append, ← recordOne_congr hlatest]
    refine ih.closed (hf.created ▸ hn) rfl hset.addr hset.isOpen ?_ (fun _ _ h => h) hrep
      (fun _ h => h) ⟨hshare, .inl hclose⟩
    simpa [LocalProxy.setConn] using hs
  | reset hm he ho hc ih => exact absurd ⟨hm, he⟩ hquiet

/-- The step closes a socket without a report, reports an end twice, or starts a share of an address
of which a connection is open. -/
def misreports (l : LocalProxy) (reported : Nat → List RelayMessageTypes) (a : LocalAction) :
    Bool :=
  match l.phase, a with
  | .dispatch ((.conn _, mask) :: _), .io io =>
    mask.read && (io.recv = .error .connectionReset || io.recv = .error .brokenPipe)
  | .closing, .turn =>
    (Dict.first? l.connections).any fun addr => (l.connections.lookup addr).any fun n =>
      !(l.conns n).sck.isOpen && (l.fdToKey (l.conns n).fd).map Prod.fst = some n
  | _, .item _ _ =>
    match l.toLocal with
    | [] => false
    | m :: _ =>
      match m.kind with
      | .newConnection => l.created.any fun n => (l.conns n).sck.isOpen && (l.conns n).addr = m.peer
      | .message =>
        l.connections.lookup m.peer = none &&
          (l.latest m.peer).any fun n => .closeConnection ∈ reported n
      | .closeConnection => false
  | _, _ => false

theorem closesOpen_item {io : ConnectIO} {m : QueuedRelayMessage} {rest : List QueuedRelayMessage}
    (ha : a = .item n io) (ht : l.toLocal = m :: rest) {k : Nat} :
    l.closesOpen a k = true ↔ m.kind = .closeConnection ∧
      l.connections.lookup m.peer = some k ∧ (l.conns k).sck.isOpen = true := by
  subst ha
  simp [closesOpen, ht, and_assoc]

/-- A CLOSE_CONNECTION for an address that is not in the table, or no longer. -/
theorem Accounted.recordUnknown (h : l.Accounted reported relayClosed) {q : QueuedRelayMessage}
    (hk : q.kind = .closeConnection) (hl : l.connections.lookup q.peer = none)
    (hold : ∀ n, l.latest q.peer = some n → .closeConnection ∉ reported n) :
    l.Accounted (l.recordOne q reported) relayClosed := by
  unfold recordOne
  cases hlat : l.latest q.peer with
  | none => exact h
  | some n =>
    obtain ⟨hn, haddr⟩ := latest_mem hlat
    have hclosed : (l.conns n).sck.isOpen = false := by
      refine Bool.eq_false_iff.mpr fun ho => ?_
      obtain ⟨-, ht⟩ := h.latest hn ho
      rw [haddr, hl] at ht
      cases ht
    obtain ⟨⟨k, hshare⟩, -⟩ := h.ended hn hclosed
    have hreport : reported n = List.replicate k .message := by
      refine hshare.resolve_right fun he => hold n hlat ?_
      rw [he]
      simp
    simp only [hk]
    refine h.closed hn rfl (fun _ => rfl) (fun _ _ => rfl) hclosed (fun _ _ h => h)
      (fun m hm => Function.update_of_ne hm ..) (fun _ h => h) ?_
    rw [Function.update_self]
    exact ⟨share_close ⟨k, hreport⟩, .inl (by simp)⟩

theorem Change.accounted (harmed : l.Armed)
    (hready : ∀ events, l.phase = .dispatch events → l.Ready events)
    (h : l.Accounted reported relayClosed) (hmis : l.misreports reported a = false)
    (hc : Change l a l' puts) : l'.Accounted (l'.record puts reported)
      (fun n => relayClosed n || l.closesOpen a n) := by
  have hmono : ∀ n, relayClosed n = true → (relayClosed n || l.closesOpen a n) = true :=
    fun n hn => by simp [hn]
  induction hc with
  | control | unmade | uncleaned =>
    exact (h.mono hmono).congr rfl (fun _ => rfl) (fun _ => rfl) rfl
  | made n fd m rest io phase ha hs ht hk hn hfree hkey =>
    have hold : ∀ k ∈ l.created, (l.conns k).sck.isOpen → (l.conns k).addr ≠ m.peer := by
      simpa [misreports, ha, ht, hk] using hmis
    have hentered : (l.enteredAt n m fd).Accounted reported relayClosed := h.enteredAt hn hold
    exact (hentered.mono hmono).congr rfl (fun _ => rfl) (fun _ => rfl) rfl
  | clash n fd m rest io ha hs ht hk hn hfree hkey =>
    have hold : ∀ k ∈ l.created, (l.conns k).sck.isOpen → (l.conns k).addr ≠ m.peer := by
      simpa [misreports, ha, ht, hk] using hmis
    have hentered : (l.entered n m fd).Accounted reported relayClosed := h.entered hn hold
    exact (hentered.mono hmono).congr rfl (fun _ => rfl) (fun _ => rfl) rfl
  | refused n fd m rest io phase ha hs ht hk hn hfree hkey =>
    have hold : ∀ k ∈ l.created, (l.conns k).sck.isOpen → (l.conns k).addr ≠ m.peer := by
      simpa [misreports, ha, ht, hk] using hmis
    let q : QueuedRelayMessage := ⟨.closeConnection, m.addr, m.port, [], l.remotePort⟩
    have hrefused : (l.refusedAt n m fd).Accounted
        ((l.refusedAt n m fd).recordOne q reported) relayClosed := h.refusedAt hn hold rfl rfl
    exact (hrefused.mono hmono).congr rfl (fun _ => rfl) (fun _ => rfl) rfl
  | unknown n m rest io phase ha ht hk hl =>
    have hold : ∀ k, l.latest m.peer = some k → .closeConnection ∉ reported k := by
      intro k hlat
      simpa [misreports, ha, ht, hk, hl, hlat] using hmis
    have hunknown := h.recordUnknown (q := ⟨.closeConnection, m.addr, m.port, [], l.remotePort⟩)
      rfl hl hold
    exact (hunknown.mono hmono).congr rfl (fun _ => rfl) (fun _ => rfl) rfl
  | pushed n k m rest io phase ha ht hk hl hkey =>
    have hf := pushed_frame (l := l) k m.data
    refine (h.mono hmono).congr hf.created hf.addr (fun x => ?_) hf.connections
    by_cases hx : x = k
    · subst hx
      simp [LocalProxy.pushed]
    · exact hf.isOpen x hx
  | jammed n k m rest io e fdToKey ha ht hk hl =>
    have hf := pushed_frame (l := l) k m.data
    refine (h.mono hmono).congr hf.created hf.addr (fun x => ?_) hf.connections
    by_cases hx : x = k
    · subst hx
      simp [LocalProxy.pushed]
    · exact hf.isOpen x hx
  | removed n k m rest io phase ha ht hk hl hkey =>
    have hkc := (harmed.entry hl).1
    have hremoved : (l.removed m.peer k).Accounted reported
        (fun n => relayClosed n || l.closesOpen a n) := by
      apply h.removed hkc hl (fun _ _ => rfl) hmono
      cases ho : (l.conns k).sck.isOpen with
      | true =>
        obtain ⟨j, hj⟩ := h.message hkc ho
        have hclose : l.closesOpen a k = true := (closesOpen_item ha ht).mpr ⟨hk, hl, ho⟩
        exact ⟨⟨j, .inl hj⟩, .inr (by simp [hclose])⟩
      | false =>
        obtain ⟨hs, he⟩ := h.ended hkc ho
        exact ⟨hs, he.imp_right (hmono k)⟩
    exact hremoved.congr rfl (fun _ => rfl) (fun _ => rfl) rfl
  | @own l₁ puts n mask events io hp ha hown =>
    have hn := ((hready _ hp).2 n mask List.mem_cons_self).1
    have hquiet : ¬ (mask.read = true ∧
        (io.recv = .error .connectionReset ∨ io.recv = .error .brokenPipe)) := by
      simpa [misreports, ha, hp] using hmis
    have hf := hown.frame
    have hrec := (hown.accounted h hn hquiet).mono hmono
    have hlatest : l₁.latest = l.latest := latest_congr hf.created hf.addr
    rw [← record_congr hlatest] at hrec
    exact hrec.congr rfl (fun _ => rfl) (fun _ => rfl) rfl
  | dropped addr n hp ha hf hl hkey =>
    obtain ⟨hn, haddr⟩ := harmed.entry hl
    have ho : (l.conns n).sck.isOpen := by
      simp only [misreports, hp, ha, hf, hl, Option.any_some, Bool.and_eq_false_iff,
        Bool.not_eq_false', decide_eq_false_iff_not] at hmis
      exact hmis.elim id fun hnk => hkey.resolve_right hnk
    obtain ⟨hrep, hshare, hclose⟩ := h.share_recorded
      (q := ⟨.closeConnection, addr.1, addr.2, [], (l.conns n).relayId⟩) hn ho haddr.symm rfl
    have hlatest : (l.removed addr n).latest = l.latest :=
      latest_congr rfl (removed_addr l addr n)
    rw [record_congr hlatest]
    exact h.removed hn hl hrep hmono ⟨hshare, .inl hclose⟩
  | crash e fdToKey wakeupPending hc ih => exact ih.congr rfl (fun _ => rfl) (fun _ => rfl) rfl

theorem step_cleaned {close : Bool} (h : l.step close a = some (l', puts)) (hp : l'.phase = .done)
    (k : Peer) : l'.connections.lookup k = none := by
  cases step_moves h with
  | begins =>
    simp only at hp
    split at hp <;> cases hp
  | item | io => cases after_phase hp nofun
  | drops hph =>
    rw [cleanupSocket_phase, hph] at hp
    cases hp
  | ends _ hnone => exact Dict.first?_eq_none hnone k
  | _ => cases hp

end LocalProxy

namespace LocalLog
open LocalRun (Event)

def misreports (s : LocalLog) : Event → Bool
  | .thread a => s.run.proxy.misreports s.reported a
  | _ => false

theorem step_unthreaded {s s' : LocalLog} {e : Event} (h : step s e = some s')
    (he : ∀ a, e ≠ .thread a) : ∃ run, s.run.step e = some run ∧ s' = { s with run } := by
  unfold step at h
  split at h
  · exact absurd rfl (he _)
  · obtain ⟨run, hr, rfl⟩ := Option.map_eq_some_iff.mp h
    exact ⟨run, hr, rfl⟩

/-- A step with shares is a step of the local proxy. -/
theorem step_run {s s' : LocalLog} {e : Event} (h : step s e = some s') :
    s.run.step e = some s'.run := by
  cases e with
  | thread a =>
    obtain ⟨⟨l, puts⟩, hl, rfl⟩ := Option.map_eq_some_iff.mp h
    exact Option.map_eq_some_iff.mpr ⟨⟨l, puts⟩, hl, rfl⟩
  | put | wakeup | rouse | shutdown =>
    obtain ⟨run, hr, rfl⟩ := step_unthreaded h nofun
    exact hr

theorem Reachable.run {P : LocalLog → Event → Prop} {s : LocalLog} (h : Reachable P s) :
    LocalRun.Reachable (fun _ _ => True) s.run := by
  apply h.invariant (J := fun s => LocalRun.Reachable (fun _ _ => True) s.run)
  · rintro _ ⟨remotePort, rfl⟩
    exact .init ⟨remotePort, rfl⟩
  · exact fun s e s' h _ hs => h.step trivial (step_run hs)

/-- A thread that has left its clean-up has an empty table. -/
theorem Reachable.done {P : LocalLog → Event → Prop} {s : LocalLog} (h : Reachable P s) :
    s.run.proxy.phase = .done → ∀ k, s.run.proxy.connections.lookup k = none := by
  apply h.invariant
    (J := fun s => s.run.proxy.phase = .done → ∀ k, s.run.proxy.connections.lookup k = none)
  · rintro _ ⟨remotePort, rfl⟩
    exact nofun
  · intro s e s' h _ hs hp
    rcases LocalRun.step_cases (step_run hs) with ⟨a, l, puts, rfl, hl, hs'⟩ | ⟨-, _, _, hs'⟩
    · rw [hs'] at hp ⊢
      exact LocalProxy.step_cleaned hl hp
    · rw [hs'] at hp ⊢
      exact h hp

theorem Reachable.accounted {s : LocalLog} (h : Reachable (fun s e => s.misreports e = false) s) :
    s.run.proxy.Accounted s.reported s.relayClosed := by
  apply h.invariant_of (J := fun s => s.run.proxy.Accounted s.reported s.relayClosed)
    (K := fun s => s.run.Armed)
  · exact fun _ h => LocalRun.Reachable.armed (Reachable.run h)
  · rintro _ ⟨remotePort, rfl⟩
    refine ⟨fun _ => rfl, ?_, ?_, ?_⟩
    · simp [LocalRun.start]
    · simp [LocalRun.start]
    · simp [LocalRun.start]
  · intro s e s' ha h hmis hs
    cases e with
    | thread a =>
      obtain ⟨⟨l, puts⟩, hl, rfl⟩ := Option.map_eq_some_iff.mp hs
      exact (ha.change hl).accounted ha.proxy (fun _ hp => ha.ready hp) h hmis
    | put | wakeup | rouse | shutdown =>
      obtain ⟨run, hr, rfl⟩ := step_unthreaded hs (by simp)
      obtain ⟨toLocal, wakeupPending, hproxy⟩ :=
        ((LocalRun.step_cases hr).resolve_left (by simp)).2
      rw [show ({ s with run } : LocalLog).run.proxy = _ from hproxy]
      exact h.congr rfl (fun _ => rfl) (fun _ => rfl) rfl

/-- **Reports of the local proxy**: the share of a connection is MESSAGEs and at most one
CLOSE_CONNECTION behind them, and exactly one once the connection has ended, or the thread has left
its loop and cleaned up, unless a CLOSE_CONNECTION of the relay has ended it. -/
theorem ends_reported {s : LocalLog} (h : Reachable (fun s e => s.misreports e = false) s) {n : Nat}
    (hn : n ∈ s.run.proxy.created) : Share (s.reported n) ∧
      ((s.run.proxy.conns n).sck.isOpen = false ∨ s.run.proxy.phase = .done →
        s.relayClosed n = false → (s.reported n).count .closeConnection = 1) := by
  have haccounted := Reachable.accounted h
  have hclosed (hend : (s.run.proxy.conns n).sck.isOpen = false ∨ s.run.proxy.phase = .done) :
      (s.run.proxy.conns n).sck.isOpen = false := by
    refine hend.elim id fun hp => Bool.eq_false_iff.mpr fun ho => ?_
    have hl := (haccounted.latest hn ho).2
    rw [Reachable.done h hp] at hl
    cases hl
  constructor
  · cases ho : (s.run.proxy.conns n).sck.isOpen with
    | true =>
      obtain ⟨k, hk⟩ := haccounted.message hn ho
      exact ⟨k, .inl hk⟩
    | false => exact (haccounted.ended hn ho).1
  · intro hend hrelay
    obtain ⟨⟨k, hshare⟩, hclose⟩ := haccounted.ended hn (hclosed hend)
    have hmem : .closeConnection ∈ s.reported n := hclose.resolve_right (by simp [hrelay])
    rcases hshare with hshare | hshare
    · rw [hshare] at hmem
      cases (List.mem_replicate.mp hmem).2
    · rw [hshare]
      simp [List.count_append, List.count_replicate]

/-- The execution of a list of events from the start. -/
def exec (test : LocalLog → Event → Bool) (es : List Event) : Option LocalLog :=
  Transition.exec step test { run := LocalRun.start 4000 } es

theorem Reachable.of_exec {P : LocalLog → Event → Prop} {test : LocalLog → Event → Bool}
    (htest : ∀ s e, test s e → P s e) {es : List Event} {s : LocalLog}
    (h : exec test es = some s) : Reachable P s :=
  .exec htest (.init ⟨4000, rfl⟩) h

theorem ends_reported_eof : ∃ s, Reachable (fun s e => s.misreports e = false) s ∧
    s.reported 0 = [.message, .message, .closeConnection] ∧
    (s.reported 0).count .closeConnection = 1 := by
  have hx : (exec (fun s e => !s.misreports e) (LocalRun.receives [.ok [1], .ok [2], .ok []])).map
      (fun s => (s.run.proxy.created, (s.run.proxy.conns 0).sck.isOpen, s.relayClosed 0,
        s.reported 0)) = some ([0], false, false, [.message, .message, .closeConnection]) := by
    decide +kernel
  obtain ⟨s, hs, hx⟩ := Option.map_eq_some_iff.mp hx
  simp only [Prod.mk.injEq] at hx
  obtain ⟨hn, hclosed, hrelay, hreported⟩ := hx
  have hr : Reachable (fun s e => s.misreports e = false) s :=
    .of_exec (fun _ _ h => by simpa using h) hs
  exact ⟨s, hr, hreported, (ends_reported hr (by simp [hn])).2 (.inl hclosed) hrelay⟩

/-- A connection that the local service resets ends without a report. -/
theorem reset_unreported : ¬ ∀ s : LocalLog, Reachable (fun _ _ => True) s →
    ∀ n ∈ s.run.proxy.created, (s.run.proxy.conns n).sck.isOpen = false →
      s.relayClosed n = false → (s.reported n).count .closeConnection = 1 := by
  intro h
  have hx : (exec (fun _ _ => true) (LocalRun.receives [.error .connectionReset])).map
      (fun s => (s.run.proxy.created, (s.run.proxy.conns 0).sck.isOpen, s.relayClosed 0,
        s.reported 0)) = some ([0], false, false, []) := by
    decide +kernel
  obtain ⟨s, hs, hx⟩ := Option.map_eq_some_iff.mp hx
  simp only [Prod.mk.injEq] at hx
  obtain ⟨hn, hclosed, hrelay, hreported⟩ := hx
  have hcount := h s (.of_exec (fun _ _ _ => trivial) hs) 0 (by simp [hn]) hclosed hrelay
  rw [hreported] at hcount
  cases hcount

end LocalLog
end PortPort
