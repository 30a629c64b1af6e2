import Mathlib.Data.Finset.Dedup
import Mathlib.Data.Finset.Erase
import Mathlib.Data.Finset.Filter
import Mathlib.Data.Finset.Insert
import PortPort.Client.LocalInterest

/-! # Wakeups of the local proxy

The loop takes at most five items, though the callback of the wakeup socket has taken all the bytes
that announced them. Unlike in the two management threads, an item need not leave bytes to be sent:
five items that open or close connections leave nothing that wakes the thread up for the sixth. What
five items leave to be sent is computed from the items, and from the connections before them. -/

namespace PortPort
open LocalProxy (LocalAction ConnectIO)
open Function (update)

/-! ## What the items of a pass do -/

/-- The table, the open connections, and those of them that are registered for write events. -/
@[ext] structure Load where
  table : Peer → Option Nat
  opened : Finset Nat
  busy : Finset Nat

/-- What an item does that does not end the thread: only a MESSAGE for an open connection leaves
something to send, and only a CLOSE_CONNECTION drops it. -/
def Load.take (d : Load) (n : Nat) (m : QueuedRelayMessage) (io : ConnectIO) : Load :=
  match m.kind with
  | .newConnection =>
    if io.connect = .error .connectionRefused then { d with table := update d.table m.peer none }
    else { d with table := update d.table m.peer (some n), opened := insert n d.opened }
  | .message =>
    match d.table m.peer with
    | some k => if k ∈ d.opened then { d with busy := insert k d.busy } else d
    | none => d
  | .closeConnection =>
    match d.table m.peer with
    | some k =>
      { table := update d.table m.peer none, opened := d.opened.erase k, busy := d.busy.erase k }
    | none => d

/-- What items do one after the other. -/
def Load.takes (d : Load) (taken : List (Nat × QueuedRelayMessage × ConnectIO)) : Load :=
  taken.foldl (fun d (n, m, io) => d.take n m io) d

theorem Load.takes_concat (d : Load) (taken : List (Nat × QueuedRelayMessage × ConnectIO))
    (n : Nat) (m : QueuedRelayMessage) (io : ConnectIO) :
    d.takes (taken ++ [(n, m, io)]) = (d.takes taken).take n m io := by
  simp [takes]

namespace LocalProxy

def load (l : LocalProxy) : Load where
  table := l.connections.lookup
  opened := l.created.toFinset.filter fun n => (l.conns n).sck.isOpen
  busy := l.created.toFinset.filter fun n => (l.conns n).sck.isOpen && (l.conns n).writeEnabled

section
variable {l : LocalProxy} {n fd : Nat} {m : QueuedRelayMessage}

theorem mem_opened : n ∈ l.load.opened ↔ n ∈ l.created ∧ (l.conns n).sck.isOpen = true := by
  simp [load]

theorem mem_busy : n ∈ l.load.busy ↔
    n ∈ l.created ∧ (l.conns n).sck.isOpen = true ∧ (l.conns n).writeEnabled = true := by
  simp [load]

theorem enteredAt_load (hn : n ∉ l.created) : (l.enteredAt n m fd).load =
    { l.load with
      table := update l.load.table m.peer (some n), opened := insert n l.load.opened } := by
  have hmem (x : Nat) : x ∈ (l.enteredAt n m fd).created ↔ x = n ∨ x ∈ l.created := List.mem_cons
  apply Load.ext
  · funext k
    simp only [Function.update_apply]
    exact enteredAt_lookup k
  · ext x
    rw [mem_opened, hmem, Finset.mem_insert, mem_opened]
    by_cases hx : x = n
    · subst hx
      simp [enteredAt_conns_self, Sock.isOpen]
    · simp [hx, show (l.enteredAt n m fd).conns x = l.conns x from entered_conns_of_ne hx]
  · ext x
    rw [mem_busy, hmem, mem_busy]
    by_cases hx : x = n
    · subst hx
      simp [enteredAt_conns_self, hn]
    · simp [hx, show (l.enteredAt n m fd).conns x = l.conns x from entered_conns_of_ne hx]

theorem refusedAt_load (hn : n ∉ l.created) : (l.refusedAt n m fd).load =
    { l.load with table := update l.load.table m.peer none } := by
  have hmem (x : Nat) : x ∈ (l.refusedAt n m fd).created ↔ x = n ∨ x ∈ l.created := List.mem_cons
  have hc := l.refusedAt_conns n m fd
  apply Load.ext
  · funext k
    change (l.refusedAt n m fd).connections.lookup k = _
    have hset : (l.entered n m fd).connections.lookup k = _ := l.entered_lookup n fd m k
    have herase : (l.refusedAt n m fd).connections = (l.entered n m fd).connections.erase m.peer :=
      rfl
    rw [herase, Dict.lookup_erase, hset]
    simp only [Function.update_apply]
    split <;> rfl
  · ext x
    rw [mem_opened, hmem, mem_opened, hc]
    by_cases hx : x = n
    · subst hx
      simp [hn]
    · simp [hx]
  · ext x
    rw [mem_busy, hmem, mem_busy, hc]
    by_cases hx : x = n
    · subst hx
      simp [hn]
    · simp [hx]

theorem removed_load (address : Peer) :
    (l.removed address n).load =
      { table := update l.load.table address none
        opened := l.load.opened.erase n, busy := l.load.busy.erase n } := by
  have hopen := l.removed_isOpen address n
  have hflag (x : Nat) : ((l.removed address n).conns x).writeEnabled =
      (l.conns x).writeEnabled := by
    simp only [removed, Function.update_apply]
    split
    · rename_i hx
      rw [hx]
    · rfl
  apply Load.ext
  · funext k
    simp only [Function.update_apply]
    exact Dict.lookup_erase ..
  · ext x
    rw [mem_opened, hopen, Finset.mem_erase, mem_opened, Bool.and_eq_true, decide_eq_true_iff]
    tauto
  · ext x
    rw [mem_busy, hopen, hflag, Finset.mem_erase, mem_busy, Bool.and_eq_true, decide_eq_true_iff]
    tauto

/-- Data for the connection `k` makes it busy if it is open. -/
theorem pushed_load {k : Nat} (hk : k ∈ l.created) (data : Bytes)
    (fdToKey : Nat → Option (Nat × Mask)) :
    ({ l.setConn k { l.conns k with
        sendq := (l.conns k).sendq ++ data, writeEnabled := true } with fdToKey }).load =
      if k ∈ l.load.opened then { l.load with busy := insert k l.load.busy } else l.load := by
  apply Load.ext
  · split <;> rfl
  · ext x
    have hopened : x ∈ ({ l.setConn k { l.conns k with
        sendq := (l.conns k).sendq ++ data, writeEnabled := true } with fdToKey }).load.opened ↔
        x ∈ l.load.opened := by
      rw [mem_opened, mem_opened]
      by_cases hx : x = k
      · subst hx
        simp [setConn]
      · simp [setConn, hx]
    rw [hopened]
    split <;> rfl
  · ext x
    rw [mem_busy]
    by_cases hx : x = k
    · subst hx
      split
      · rename_i ho
        simpa [setConn] using mem_opened.mp ho
      · rename_i ho
        rw [mem_opened, not_and, Bool.not_eq_true] at ho
        simp [setConn, mem_busy, hk, ho hk]
    · split
      · simp [setConn, hx, mem_busy]
      · simp [setConn, hx, mem_busy]

end

section
variable {l : LocalProxy} {n : Nat} {m : QueuedRelayMessage} {io : ConnectIO}

theorem newConnection_load (hfree : l.socketAllowed n io = true) (hk : m.kind = .newConnection)
    (hr : (l.newConnection n m io).raised = none) :
    (l.newConnection n m io).state.load = l.load.take n m io ∧
      (l.newConnection n m io).state.wakeupPending = l.wakeupPending := by
  simp only [Load.take, hk]
  cases hs : io.socket with
  | error e =>
    rw [newConnection_lost hs] at hr
    cases hr
  | ok fd =>
    obtain ⟨hn, -⟩ := (socketAllowed_ok hs).mp hfree
    rw [newConnection_made hs] at hr ⊢
    cases hkey : (l.fdToKey fd).isSome with
    | true =>
      rw [enterConnection_taken hkey] at hr
      cases hr
    | false =>
      cases hc : io.connect with
      | ok _ =>
        rw [enterConnection_free hkey]
        exact ⟨(enteredAt_load hn).trans (if_neg (fun h => by cases h)).symm, rfl⟩
      | error e =>
        rw [hc] at hr
        cases e with
        | connectionRefused =>
          rw [enterConnection_refused hkey]
          exact ⟨(refusedAt_load hn).trans (if_pos rfl).symm, rfl⟩
        | _ =>
          rw [enterConnection_free hkey] at hr
          cases hr

theorem message_load (h : l.Armed) (hk : m.kind = .message) (hr : (l.message n m).raised = none) :
    (l.message n m).state.load = l.load.take n m io ∧
      (l.message n m).state.wakeupPending = l.wakeupPending := by
  simp only [Load.take, hk, message] at hr ⊢
  cases hl : l.connections.lookup m.peer with
  | none => exact ⟨by simp [load, hl], rfl⟩
  | some k =>
    have hkc := (h.entry hl).1
    have htable : l.load.table m.peer = some k := hl
    rw [hl] at hr
    simp only [htable] at hr ⊢
    split
    · exact ⟨pushed_load hkc m.data l.fdToKey, rfl⟩
    · rename_i hw
      rw [if_neg hw] at hr
      rcases modify_eq (l := l.setConn k { l.conns k with
          sendq := (l.conns k).sendq ++ m.data, writeEnabled := true }) k .rw with
        ⟨hm, -⟩ | ⟨e, fdToKey, hm⟩
      · rw [hm]
        exact ⟨pushed_load hkc m.data _, rfl⟩
      · rw [hm] at hr
        cases hr

/-- An item that ends the thread aside, the handler does what the item does to the load. -/
theorem handleItem_load (h : l.Armed)
    (hfree : m.kind = .newConnection → l.socketAllowed n io = true)
    (hr : (l.handleItem n m io).raised = none) :
    (l.handleItem n m io).state.load = l.load.take n m io ∧
      (l.handleItem n m io).state.wakeupPending = l.wakeupPending := by
  unfold handleItem at hr ⊢
  cases hk : m.kind with
  | newConnection =>
    rw [hk] at hr
    exact newConnection_load (hfree hk) hk hr
  | message =>
    rw [hk] at hr
    exact message_load h hk hr
  | closeConnection =>
    rw [hk] at hr
    simp only [Load.take, hk] at hr ⊢
    rcases cleanupSocket_cases (l := l) m.peer with ⟨k, hl, -, hout⟩ | ⟨e, hout⟩
    · rw [hout, show l.load.table m.peer = some k from hl]
      exact ⟨removed_load m.peer, rfl⟩
    · rw [hout] at hr
      cases hr

end

/-- The callback of a connection sends a wakeup when it has emptied its `sendq`. -/
theorem OwnChange.wakes {l l' : LocalProxy} {n : Nat} {mask : Mask} {io : ConnIO}
    {puts : List (Nat × QueuedRelayMessage)} (h : OwnChange l n mask io l' puts) :
    ((l.conns n).sendq = [] → (l'.conns n).sendq = []) ∧ (l'.wakeupPending = true ↔
      l.wakeupPending = true ∨ (l.conns n).sendq ≠ [] ∧ (l'.conns n).sendq = []) := by
  induction h with
  | refl => exact ⟨id, by tauto⟩
  | recv | hangup | reset =>
    rename_i ih
    simpa [setConn] using ih
  | @flush l₁ _ len ho hq h ih =>
    have hbusy : (l.conns n).sendq ≠ [] := fun he => hq (ih.1 he)
    refine ⟨fun he => absurd he hbusy, ?_⟩
    simp only [flushed, Function.update_self, Bool.or_eq_true, decide_eq_true_eq, ih.2, hq, hbusy,
      and_false, or_false, true_and, ne_eq, not_false_eq_true]

/-! ## The way to `select` -/

/-- The thread comes to `select` from the test of the bound, or from an empty queue. -/
theorem step_select {l l' : LocalProxy} {close : Bool} {a : LocalAction}
    {puts : List (Nat × QueuedRelayMessage)} (h : l.step close a = some (l', puts))
    (hp : l'.phase = .select) :
    l' = { l with phase := .select } ∧ a = .turn ∧ (l.phase = .batch 0 ∨
      (∃ left, l.phase = .batch (left + 1)) ∧ l.toLocal = []) := by
  cases step_moves h with
  | begins =>
    simp only at hp
    split at hp <;> cases hp
  | bounded hph => exact ⟨rfl, rfl, .inl hph⟩
  | emptied hph ht => exact ⟨rfl, rfl, .inr ⟨⟨_, hph⟩, ht⟩⟩
  | item | io => cases after_phase hp nofun
  | drops hph =>
    rw [cleanupSocket_phase, hph] at hp
    cases hp
  | _ => cases hp

end LocalProxy

namespace LocalRun

/-- The thread will be woken up for the items on its queue, if there are any: by a wakeup byte, by
the thread that is about to send one, or by a socket that is registered for write events. -/
def Signalled (s : LocalRun) : Prop :=
  s.proxy.toLocal = [] ∨ s.proxy.wakeupPending = true ∨ 0 < s.putting ∨
    ∃ n ∈ s.proxy.created, (s.proxy.conns n).sck.isOpen ∧
      (s.proxy.registeredEvents n).any Mask.write = true

/-- When the thread is about to call `select`, the items on its queue are signalled. -/
def NoStall (s : LocalRun) : Prop := s.proxy.phase = .select → s.Signalled

end LocalRun

/-! ## Runs with what has happened in them -/

/-- A run, with the wakeups sent and the items taken in it. -/
structure PassRun where
  run : LocalRun
  /-- so many items have been put, and so many of them announced -/
  put : Nat := 0
  announced : Nat := 0
  /-- so many had been announced when `handle_wakeup` was last called -/
  heard : Nat := 0
  /-- since then the thread has been woken up for something else than an item -/
  roused : Bool := false
  /-- the connections when the pass began -/
  began : Load
  /-- the items that the pass has taken, each with the connection it is about and the results of
  its socket calls -/
  taken : List (Nat × QueuedRelayMessage × ConnectIO) := []

namespace PassRun
open LocalRun (Event)

/-- The callback that is next has emptied the `sendq` of its connection. -/
def emptied (l l' : LocalProxy) : Bool :=
  match l.phase with
  | .dispatch ((.conn n, _) :: _) => (l.conns n).sendq ≠ [] && (l'.conns n).sendq = []
  | _ => false

/-- What an event that leads to `run` adds to the record. -/
def record (g : PassRun) (e : Event) (run : LocalRun) : PassRun :=
  let l := g.run.proxy
  match e with
  | .put _ => { g with run, put := g.put + 1 }
  | .wakeup => { g with run, announced := g.announced + 1 }
  | .rouse => { g with run, roused := true }
  | .shutdown => { g with run }
  | .thread .wakeupRead => { g with run, heard := g.announced, roused := false }
  | .thread (.io _) => { g with run, roused := g.roused || emptied l run.proxy }
  | .thread (.item n io) =>
    { g with run, taken := g.taken ++ l.toLocal.head?.toList.map fun m => (n, m, io) }
  | .thread .turn =>
    if l.phase = .top then { g with run, began := l.load, taken := [] } else { g with run }
  | .thread (.select _) => { g with run }

def step (g : PassRun) (e : Event) : Option PassRun := (g.run.step e).map (g.record e)

def start (remotePort : Int) : PassRun :=
  { run := LocalRun.start remotePort, began := (LocalRun.start remotePort).proxy.load }

def Init (g : PassRun) : Prop := ∃ remotePort, g = start remotePort

abbrev Reachable (P : PassRun → Event → Prop) : PassRun → Prop :=
  Transition.Reach (Transition.Fires step) P Init

/-- The execution of a list of events from the start. -/
def exec (test : PassRun → Event → Bool) (es : List Event) : Option PassRun :=
  Transition.exec step test (start 4000) es

theorem Reachable.of_exec {P : PassRun → Event → Prop} {test : PassRun → Event → Bool}
    (htest : ∀ g e, test g e → P g e) {es : List Event} {g : PassRun}
    (h : exec test es = some g) : Reachable P g :=
  .exec htest (.init ⟨4000, rfl⟩) h

@[simp] theorem record_run (g : PassRun) (e : Event) (run : LocalRun) :
    (g.record e run).run = run := by
  unfold record
  simp only
  split
  all_goals first | rfl | (split <;> rfl)

variable {g g' : PassRun} {e : Event}

theorem step_run (h : g.step e = some g') :
    g.run.step e = some g'.run ∧ g' = g.record e g'.run := by
  obtain ⟨run, hrun, rfl⟩ := Option.map_eq_some_iff.mp h
  rw [record_run]
  exact ⟨hrun, rfl⟩

theorem Reachable.localRun {P : PassRun → Event → Prop} (h : Reachable P g) :
    LocalRun.Reachable (fun _ _ => True) g.run := by
  induction h with
  | init hi =>
    obtain ⟨remotePort, rfl⟩ := hi
    exact .init ⟨remotePort, rfl⟩
  | step _ _ hs ih => exact ih.step trivial (step_run hs).1

/-- Every run of the thread is recorded. -/
theorem exists_recorded {s : LocalRun} (h : LocalRun.Reachable (fun _ _ => True) s) :
    ∃ g, Reachable (fun _ _ => True) g ∧ g.run = s := by
  induction h with
  | init hi =>
    obtain ⟨remotePort, rfl⟩ := hi
    exact ⟨start remotePort, .init ⟨remotePort, rfl⟩, rfl⟩
  | @step s e s' _ _ hs ih =>
    obtain ⟨g, hg, rfl⟩ := ih
    refine ⟨g.record e s', hg.step (a := e) trivial ?_, record_run g e s'⟩
    exact Option.map_eq_some_iff.mpr ⟨s', hs, rfl⟩

/-- The record is right: the unread wakeups are those sent since `handle_wakeup`, and the pass has
done what its items do. -/
structure Recorded (g : PassRun) : Prop where
  put : g.put = g.announced + g.run.putting
  heard : g.heard ≤ g.announced
  pending : g.run.proxy.Alive →
    (g.run.proxy.wakeupPending = true ↔ g.heard < g.announced ∨ g.roused = true)
  load : g.run.proxy.phase = .batch left → g.run.proxy.load = g.began.takes g.taken

/-- Neither the record nor what it is about has changed. -/
theorem Recorded.congr (h : g.Recorded) {run : LocalRun} (hp : run.putting = g.run.putting)
    (hpend : run.proxy.Alive →
      g.run.proxy.Alive ∧ run.proxy.wakeupPending = g.run.proxy.wakeupPending)
    (hphase : ∀ left, run.proxy.phase ≠ .batch left) : ({ g with run } : PassRun).Recorded where
  put := by rw [h.put, hp]
  heard := h.heard
  pending ha := by
    obtain ⟨ha, hw⟩ := hpend ha
    rw [hw]
    exact h.pending ha
  load hb := absurd hb (hphase _)

/-- An item that the thread takes is recorded with what it does to the load. -/
theorem Recorded.item (h : g.Recorded) (harmed : g.run.Armed) {n : Nat} {m : QueuedRelayMessage}
    {rest : List QueuedRelayMessage} {io : LocalProxy.ConnectIO}
    (hp : g.run.proxy.phase = .batch (left + 1)) (ht : g.run.proxy.toLocal = m :: rest)
    (hfree : ¬ (m.kind = .newConnection ∧ !g.run.proxy.socketAllowed n io)) :
    (g.record (.thread (.item n io)) { g.run with
      proxy := LocalProxy.after ({ g.run.proxy with toLocal := rest }.handleItem n m io)
        (.batch left) }).Recorded := by
  have halive : g.run.proxy.Alive := fun e he => by cases hp.symm.trans he
  have hpend := h.pending halive
  let l₀ : LocalProxy := { g.run.proxy with toLocal := rest }
  have hl₀ : l₀.Armed := harmed.proxy.control id rfl rfl rfl fun _ => rfl
  have hguard (hk : m.kind = .newConnection) : l₀.socketAllowed n io = true := by
    have : g.run.proxy.socketAllowed n io = true := by simpa [hk] using hfree
    exact this
  cases hr : (l₀.handleItem n m io).raised with
  | none =>
    obtain ⟨hload, hwakeup⟩ := LocalProxy.handleItem_load hl₀ hguard hr
    refine ⟨h.put, h.heard, fun _ => ?_, fun _ => ?_⟩
    · simp only [record, LocalProxy.after]
      rw [show (LocalProxy.handleItem _ n m io).state.wakeupPending = _ from hwakeup]
      exact hpend
    · simp only [record, ht, List.head?_cons, Option.toList_some, List.map_cons, List.map_nil,
        Load.takes_concat, ← h.load hp]
      exact hload
  | some e =>
    have hcrash : (LocalProxy.after (l₀.handleItem n m io) (.batch left)).phase = .crashed e := by
      simp only [LocalProxy.after, hr]
    refine ⟨h.put, h.heard, fun ha => absurd hcrash (ha e), fun hb => ?_⟩
    cases hcrash.symm.trans hb

/-- A callback is recorded with the wakeup that it sends. -/
theorem Recorded.io (h : g.Recorded) (harmed : g.run.Armed) {n : Nat} {mask : Mask}
    {events : List (LocalKey × Mask)} {io : LocalProxy.ConnIO}
    (hp : g.run.proxy.phase = .dispatch ((.conn n, mask) :: events)) :
    (g.record (.thread (.io io)) { g.run with
      proxy := LocalProxy.after (g.run.proxy.handleIoEvent n mask io)
        (.dispatch events) }).Recorded := by
  have halive : g.run.proxy.Alive := fun e he => by cases hp.symm.trans he
  have hpend := h.pending halive
  have hr := harmed.ready hp
  obtain ⟨l₁, hc, hout⟩ :=
    LocalProxy.handleIoEvent_change mask io (hr.2 n mask List.mem_cons_self).2
  rcases hout with ⟨hraised, hstate⟩ | ⟨e, _, _, hraised, -⟩
  · refine ⟨h.put, h.heard, fun _ => ?_, fun hb => ?_⟩
    · simp only [record, emptied, hp, LocalProxy.after, hstate, Bool.or_eq_true,
        Bool.and_eq_true, decide_eq_true_eq, hc.wakes.2, hpend, or_assoc]
    · simp only [record, LocalProxy.after, hraised] at hb
      cases hb
  · have hcrash : (LocalProxy.after (g.run.proxy.handleIoEvent n mask io)
        (.dispatch events)).phase = .crashed e := by
      simp only [LocalProxy.after, hraised]
    refine ⟨h.put, h.heard, fun ha => absurd hcrash (ha e), fun hb => ?_⟩
    cases hcrash.symm.trans hb

/-- The steps of the thread keep the record right. -/
theorem Recorded.thread (h : g.Recorded) (harmed : g.run.Armed) {a : LocalAction} {l : LocalProxy}
    {puts : List (Nat × QueuedRelayMessage)}
    (hl : g.run.proxy.step g.run.close a = some (l, puts)) :
    (g.record (.thread a) { g.run with proxy := l }).Recorded := by
  have halive := LocalProxy.step_alive hl
  have hpend := h.pending halive
  cases LocalProxy.step_moves hl with
  | begins hp =>
    simp only [record, hp, if_true]
    exact ⟨h.put, h.heard, fun _ => hpend, fun _ => rfl⟩
  | bounded hp | emptied hp | dispatched hp =>
    simp only [record, hp, reduceCtorEq, if_false]
    refine h.congr rfl (fun _ => ⟨halive, rfl⟩) fun left hb => ?_
    cases hb
  | selects =>
    refine h.congr rfl (fun _ => ⟨halive, rfl⟩) fun left hb => ?_
    cases hb
  | wakeupRead =>
    refine ⟨h.put, Nat.le_refl _, fun _ => ?_, fun hb => ?_⟩
    · simp [record]
    · cases hb
  | item hp ht hfree => exact h.item harmed hp ht hfree
  | io hp => exact h.io harmed hp
  | @drops addr n hp _ _ hraised =>
    simp only [record, hp, reduceCtorEq, if_false]
    refine h.congr rfl (fun _ => ⟨halive, ?_⟩) fun left => ?_
    · rcases LocalProxy.cleanupSocket_cases (l := g.run.proxy) addr with
        ⟨k, -, -, hout⟩ | ⟨e, hout⟩
      · rw [hout]
        rfl
      · rw [hout]
    · rw [LocalProxy.cleanupSocket_phase, hp]
      intro hb
      cases hb
  | @dropFails addr e hp =>
    simp only [record, hp, reduceCtorEq, if_false]
    refine h.congr rfl (fun ha => absurd rfl (ha e)) fun left hb => ?_
    cases hb
  | ends hp =>
    simp only [record, hp, reduceCtorEq, if_false]
    refine h.congr rfl (fun _ => ⟨halive, rfl⟩) fun left hb => ?_
    cases hb

theorem Recorded.step (h : g.Recorded) (harmed : g.run.Armed) (hs : g.step e = some g') :
    g'.Recorded := by
  obtain ⟨hrun, hg'⟩ := step_run hs
  rw [hg']
  cases e with
  | thread a =>
    obtain ⟨l, puts, hl, hrun⟩ := LocalRun.step_thread hrun
    rw [hrun]
    exact h.thread harmed hl
  | put m =>
    rw [← Option.some.inj hrun]
    exact ⟨by simp only [record, h.put]; omega, h.heard, h.pending, h.load⟩
  | wakeup =>
    simp only [LocalRun.step, Option.ite_none_right_eq_some, Option.some.injEq] at hrun
    obtain ⟨hpos, hrun⟩ := hrun
    rw [← hrun]
    refine ⟨?_, Nat.le_succ_of_le h.heard, fun _ => ?_, h.load⟩
    · simp only [record, h.put]
      omega
    · exact iff_of_true rfl (.inl (Nat.lt_succ_of_le h.heard))
  | rouse =>
    rw [← Option.some.inj hrun]
    exact ⟨h.put, h.heard, fun _ => iff_of_true rfl (.inr rfl), h.load⟩
  | shutdown =>
    rw [← Option.some.inj hrun]
    exact ⟨h.put, h.heard, h.pending, h.load⟩

theorem Reachable.recorded {P : PassRun → Event → Prop} (h : Reachable P g) : g.Recorded := by
  apply h.invariant_of (J := Recorded) (K := fun g => g.run.Armed)
  · exact fun _ h => (Reachable.localRun h).armed
  · rintro _ ⟨remotePort, rfl⟩
    refine ⟨rfl, Nat.le_refl _, fun _ => ?_, nofun⟩
    simp [start, LocalRun.start]
  · exact fun _ _ _ ha h _ hs => h.step ha hs

/-! ## The passes that stall -/

/-- The bound of five ends a pass with items left that were all announced before `handle_wakeup` was
last called, nothing else has woken the thread up since, and none of the connections that were busy
when the pass began, or were made so by its items, is left busy by these items. -/
def stalls (g : PassRun) : Event → Bool
  | .thread .turn =>
    g.run.proxy.phase = .batch 0 && !g.run.proxy.toLocal.isEmpty && g.heard = g.put &&
      !g.roused && (g.began.takes g.taken).busy = ∅
  | _ => false

theorem Recorded.stalls_iff (h : g.Recorded) (harmed : g.run.Armed)
    (hp : g.run.proxy.phase = .batch 0) :
    g.stalls (.thread .turn) = true ↔ ¬ g.run.Signalled := by
  have halive : g.run.proxy.Alive := fun e he => by cases hp.symm.trans he
  have hpend := h.pending halive
  have hbusy : (g.began.takes g.taken).busy = ∅ ↔ ¬ ∃ n ∈ g.run.proxy.created,
      (g.run.proxy.conns n).sck.isOpen = true ∧
      (g.run.proxy.registeredEvents n).any Mask.write = true := by
    rw [← h.load hp, Finset.eq_empty_iff_forall_notMem, not_exists]
    apply forall_congr'
    intro n
    rw [LocalProxy.mem_busy]
    apply not_congr
    apply and_congr_right
    intro hn
    apply and_congr_right
    intro ho
    rw [harmed.proxy.registeredEvents_eq halive hn ho]
    cases (g.run.proxy.conns n).writeEnabled <;> decide
  have hunread : g.heard = g.put ∧ g.roused = false ↔
      ¬ (g.run.proxy.wakeupPending = true ∨ 0 < g.run.putting) := by
    have hput := h.put
    have hheard := h.heard
    rw [hpend, not_or, not_or, Bool.not_eq_true]
    constructor
    · rintro ⟨he, hr⟩
      exact ⟨⟨by omega, hr⟩, by omega⟩
    · rintro ⟨⟨hlt, hr⟩, hpos⟩
      exact ⟨by omega, hr⟩
  unfold LocalRun.Signalled
  rw [not_or, ← or_assoc, not_or, ← hunread, ← hbusy]
  simp only [stalls, hp, decide_true, Bool.true_and, Bool.and_eq_true, Bool.not_eq_true',
    List.isEmpty_eq_false_iff, decide_eq_true_eq, ne_eq, and_assoc]

theorem step_noStall (hrec : g.Recorded) (ha : g.run.Armed) (h : g.run.NoStall)
    (hs : g.step e = some g') : g'.run.NoStall ↔ ¬ g.stalls e = true := by
  obtain ⟨hrun, -⟩ := step_run hs
  rcases LocalRun.step_cases hrun with ⟨a, l, puts, rfl, hl, hrun'⟩ | ⟨he, -⟩
  · rw [hrun']
    constructor
    · intro hno hstall
      unfold stalls at hstall
      split at hstall
      · rename_i heq
        cases heq
        have hp : g.run.proxy.phase = .batch 0 := by
          simp only [Bool.and_eq_true, decide_eq_true_eq] at hstall
          exact hstall.1.1.1.1
        have hnot := (hrec.stalls_iff ha hp).mp hstall
        simp only [LocalProxy.step, hp] at hl
        cases hl
        exact hnot (hno rfl)
      · cases hstall
    · intro hstall hp
      obtain ⟨rfl, rfl, hphase⟩ := LocalProxy.step_select hl hp
      rcases hphase with hphase | ⟨-, hempty⟩
      · have hsig := not_not.mp (mt (hrec.stalls_iff ha hphase).mpr hstall)
        exact hsig
      · exact .inl hempty
  · refine iff_of_true (fun hp => ?_) ?_
    · cases e with
      | thread a => exact absurd rfl (he a)
      | put m =>
        rw [← Option.some.inj hrun]
        exact .inr (.inr (.inl (Nat.succ_pos _)))
      | wakeup =>
        simp only [LocalRun.step, Option.ite_none_right_eq_some, Option.some.injEq] at hrun
        rw [← hrun.2]
        exact .inr (.inl rfl)
      | rouse =>
        rw [← Option.some.inj hrun]
        exact .inr (.inl rfl)
      | shutdown =>
        rw [← Option.some.inj hrun] at hp ⊢
        exact h hp
    · unfold stalls
      split
      · exact absurd rfl (he _)
      · exact Bool.false_ne_true

/-- **Wakeups of the local proxy**: in every run in which no pass stalls, no item waits unsignalled
when the thread calls `select`, and the next step keeps this so exactly when it is not the end of
a pass that stalls either. -/
theorem noStall_iff (h : Reachable (fun g e => ¬ g.stalls e = true) g)
    (hs : g.step e = some g') : g.run.NoStall ∧ (g'.run.NoStall ↔ ¬ g.stalls e = true) := by
  have hno : g.run.NoStall := by
    apply h.invariant_of (J := fun g => g.run.NoStall) (K := fun g => g.Recorded ∧ g.run.Armed)
    · exact fun _ h => ⟨Reachable.recorded h, (Reachable.localRun h).armed⟩
    · rintro _ ⟨remotePort, rfl⟩
      exact nofun
    · exact fun _ _ _ ha h hP hs => (step_noStall ha.1 ha.2 h hs).mpr hP
  exact ⟨hno, step_noStall h.recorded h.localRun.armed hno hs⟩

end PassRun

namespace LocalRun

/-- The thread has come to its queue for these items, all announced, and takes five. -/
def takesFive (items : List QueuedRelayMessage) : List Event :=
  [.thread .turn, .thread .turn] ++ items.flatMap (fun m => [.put m, .wakeup]) ++
    [.thread (.select [(.wakeup, .r)]), .thread .wakeupRead, .thread .turn, .thread .turn] ++
    (List.range 5).map fun n => .thread (.item n { socket := .ok (n + 5), connect := .ok () })

/-- Six connections are opened at once. -/
def opensSix : List QueuedRelayMessage :=
  (List.range 6).map fun n => ⟨.newConnection, .dotted 10 0 0 1, 5000 + n, [], 4000⟩

/-- A connection is opened, and five messages for it come at once. -/
def sendsFive : List QueuedRelayMessage :=
  ⟨.newConnection, .dotted 10 0 0 1, 5000, [], 4000⟩ ::
    List.replicate 5 ⟨.message, .dotted 10 0 0 1, 5000, [1], 4000⟩

end LocalRun

/-- The connection still has bytes to send. -/
theorem PassRun.noStall_sends : ∃ g g' : PassRun, g.run.proxy.phase = .batch 0 ∧
    g.run.proxy.toLocal ≠ [] ∧ g.run.proxy.wakeupPending = false ∧
    g.step (.thread .turn) = some g' ∧ g.run.NoStall ∧ g'.run.NoStall := by
  have hx : ((exec (fun g e => !g.stalls e) (LocalRun.takesFive LocalRun.sendsFive)).bind fun g =>
      (g.step (.thread .turn)).map fun _ => (g.run.proxy.phase, g.run.proxy.toLocal.length,
        g.run.proxy.wakeupPending, g.stalls (.thread .turn))) =
          some (.batch 0, 1, false, false) := by
    decide +kernel
  obtain ⟨g, hg, hx⟩ := Option.bind_eq_some_iff.mp hx
  obtain ⟨g', hg', hx⟩ := Option.map_eq_some_iff.mp hx
  simp only [Prod.mk.injEq] at hx
  obtain ⟨hp, hi, hw, hstall⟩ := hx
  have hr : Reachable (fun g e => ¬ g.stalls e = true) g :=
    Reachable.of_exec (fun _ _ h => by simpa using h) hg
  obtain ⟨hno, hiff⟩ := noStall_iff hr hg'
  refine ⟨g, g', hp, ?_, hw, hg', hno, hiff.mpr (by simp [hstall])⟩
  exact List.ne_nil_of_length_pos (by omega)

namespace LocalRun

/-- The sixth connection waits on the queue, and nothing will wake the thread up. -/
theorem opensSix_stalled : ¬ ∀ s : LocalRun, Reachable (fun _ _ => True) s → s.NoStall := by
  intro h
  have hx : (run (fun _ _ => true) (takesFive opensSix ++ [.thread .turn])).map (fun s =>
      (s.proxy.phase, s.proxy.toLocal.length, s.proxy.wakeupPending || decide (0 < s.putting),
        s.proxy.created.any fun n => (s.proxy.registeredEvents n).any Mask.write)) =
      some (.select, 1, false, false) := by
    decide +kernel
  obtain ⟨s, hs, hx⟩ := Option.map_eq_some_iff.mp hx
  simp only [Prod.mk.injEq, Bool.or_eq_false_iff, decide_eq_false_iff_not] at hx
  obtain ⟨hp, hi, ⟨hw, hput⟩, harmed⟩ := hx
  rcases h s (Reachable.of_run (fun _ _ _ => trivial) hs) hp with
    hnil | hpend | hpos | ⟨n, hn, -, hreg⟩
  · rw [hnil] at hi
    cases hi
  · cases hw.symm.trans hpend
  · exact hput hpos
  · exact List.any_eq_false.mp harmed n hn hreg

end LocalRun
end PortPort
