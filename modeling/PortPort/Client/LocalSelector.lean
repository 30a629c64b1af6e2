import PortPort.Client.ConnMoves
import PortPort.Client.LocalInterest

/-! # The selector of the local proxy

A callback that ends its connection closes the socket and leaves it in the table and in the
selector's map. Until then every entry of the table is an open socket under its own descriptor, and
no call of the selector raises. -/

namespace PortPort
open Function (update)
open LocalProxy (LocalAction ConnIO)

namespace LocalProxy

/-- Every entry of the table is an open socket under its own descriptor, and nothing else is in the
map but open sockets under their own descriptors. -/
structure SelectorSound (l : LocalProxy) : Prop where
  entry : l.connections.lookup k = some n → (l.conns n).sck.isOpen ∧ l.Keyed n
  key : l.fdToKey fd = some (n, mask) → (l.conns n).sck.isOpen ∧ (l.conns n).fd = fd

/-- No call of the selector that the loop may make raises: `modify` and `unregister` of a connection
in the table or in the callback of an open socket, and `register` of a new socket. -/
structure SelectorQuiet (l : LocalProxy) : Prop where
  modify : (n ∈ l.created ∧ (l.conns n).sck.isOpen ∨ ∃ k, l.connections.lookup k = some n) →
    (l.modify n events).raised = none
  unregister : (n ∈ l.created ∧ (l.conns n).sck.isOpen ∨ ∃ k, l.connections.lookup k = some n) →
    (l.unregister n).raised = none
  register : l.fdFree fd = true → ((l.entered n m fd).register n .r).raised = none

variable {l l' : LocalProxy} {a : LocalAction} {n : Nat} {mask : Mask} {io : ConnIO}
  {puts : List (Nat × QueuedRelayMessage)}

/-- The write part of the callback finds that the peer has gone, and closes the socket. -/
def endsWrite (l : LocalProxy) (n : Nat) (mask : Mask) (io : ConnIO) : Bool :=
  mask.write && (l.conns n).sendq ≠ [] &&
    (io.send = .error .connectionReset || io.send = .error .brokenPipe)

/-- The callback closes its socket: at the end of the stream, or when the peer has gone. -/
def endsConn (l : LocalProxy) (n : Nat) (mask : Mask) (io : ConnIO) : Bool :=
  if mask.read then
    match io.recv with
    | .ok data => data = [] || l.endsWrite n mask io
    | .error .connectionReset | .error .brokenPipe => true
    | .error .blockingIo => l.endsWrite n mask io
    | .error _ => false
  else l.endsWrite n mask io

theorem handleWrite_ends {send : Except OSError Nat}
    (h : send = .error .connectionReset ∨ send = .error .brokenPipe) :
    (l.handleWrite n send).raised = none ∧
      ((l.handleWrite n send).state.conns n).sck.isOpen = false := by
  rcases h with rfl | rfl
  · exact ⟨rfl, by simp [handleWrite, LocalProxy.setConn]⟩
  · exact ⟨rfl, by simp [handleWrite, LocalProxy.setConn]⟩

theorem handleWrite_stays {send : Except OSError Nat} (ho : (l.conns n).sck.isOpen)
    (h : ¬ (send = .error .connectionReset ∨ send = .error .brokenPipe)) :
    ((l.handleWrite n send).state.conns n).sck.isOpen := by
  cases send with
  | ok len =>
    unfold handleWrite
    simp only
    split
    · split <;> simp [modify_conns, LocalProxy.setConn, LocalProxy.wakeup, ho]
    · simp [LocalProxy.setConn, ho]
  | error e =>
    cases e with
    | connectionReset => exact absurd (.inl rfl) h
    | brokenPipe => exact absurd (.inr rfl) h
    | _ => exact ho

theorem write_ends {l' : LocalProxy} (h : l'.endsWrite n mask io = true) :
    let out := if mask.write && (l'.conns n).sendq ≠ [] then l'.handleWrite n io.send
      else ({ state := l' } : Outcome LocalProxy)
    out.raised = none ∧ (out.state.conns n).sck.isOpen = false := by
  simp only [endsWrite, Bool.and_eq_true, Bool.or_eq_true, decide_eq_true_eq] at h
  intro out
  have hout : out = l'.handleWrite n io.send := if_pos (by simp [h.1.1, h.1.2])
  rw [hout]
  exact handleWrite_ends h.2

theorem write_stays {l' : LocalProxy} (ho : (l'.conns n).sck.isOpen)
    (h : l'.endsWrite n mask io = false) :
    let out := if mask.write && (l'.conns n).sendq ≠ [] then l'.handleWrite n io.send
      else ({ state := l' } : Outcome LocalProxy)
    (out.state.conns n).sck.isOpen := by
  intro out
  by_cases hw : (mask.write && (l'.conns n).sendq ≠ []) = true
  · rw [show out = l'.handleWrite n io.send from if_pos hw]
    apply handleWrite_stays ho
    intro hsend
    simp only [endsWrite, hw, Bool.true_and, Bool.or_eq_false_iff, decide_eq_false_iff_not] at h
    exact hsend.elim h.1 h.2
  · rw [show out = { state := l' } from if_neg hw]
    exact ho

theorem handleIoEvent_ends (h : l.endsConn n mask io = true) :
    (l.handleIoEvent n mask io).raised = none ∧
      ((l.handleIoEvent n mask io).state.conns n).sck.isOpen = false := by
  unfold endsConn at h
  unfold handleIoEvent
  by_cases hm : mask.read = true
  · simp only [hm, if_true] at h ⊢
    cases hr : io.recv with
    | ok data =>
      simp only [hr] at h ⊢
      by_cases hd : data = []
      · rw [if_pos hd]
        exact ⟨rfl, by simp [LocalProxy.setConn]⟩
      · rw [if_neg hd]
        have hends : (l.setConn n { l.conns n with sck := (l.conns n).sck.recv data }).endsWrite n
            mask io = true := by
          simpa [hd, endsWrite, LocalProxy.setConn] using h
        exact write_ends hends
    | error e =>
      simp only [hr] at h ⊢
      cases e with
      | connectionReset | brokenPipe => exact ⟨rfl, by simp [LocalProxy.setConn]⟩
      | blockingIo => exact write_ends h
      | _ => cases h
  · simp only [hm, Bool.false_eq_true, if_false] at h ⊢
    exact write_ends h

theorem handleIoEvent_stays (ho : (l.conns n).sck.isOpen) (h : l.endsConn n mask io = false) :
    ((l.handleIoEvent n mask io).state.conns n).sck.isOpen := by
  unfold endsConn at h
  unfold handleIoEvent
  by_cases hm : mask.read = true
  · simp only [hm, if_true] at h ⊢
    cases hr : io.recv with
    | ok data =>
      simp only [hr, Bool.or_eq_false_iff, decide_eq_false_iff_not] at h ⊢
      rw [if_neg h.1]
      have hstays : (l.setConn n { l.conns n with sck := (l.conns n).sck.recv data }).endsWrite n
          mask io = false := by
        simpa [endsWrite, LocalProxy.setConn] using h.2
      exact write_stays (by simpa [LocalProxy.setConn] using ho) hstays
    | error e =>
      simp only [hr] at h ⊢
      cases e with
      | connectionReset | brokenPipe => cases h
      | blockingIo => exact write_stays ho h
      | _ => exact ho
  · simp only [hm, Bool.false_eq_true, if_false] at h ⊢
    exact write_stays ho h

/-! ## What keeps the selector sound -/

/-- The connections keep their descriptors and stay open, and registered sockets stay so. -/
theorem SelectorSound.of_same (h : l.SelectorSound)
    (hopen : ∀ m, (l'.conns m).sck.isOpen = (l.conns m).sck.isOpen)
    (hfd : ∀ m, (l'.conns m).fd = (l.conns m).fd) (hconnections : l'.connections = l.connections)
    (hmap : ∀ fd, (l'.fdToKey fd).map Prod.fst = (l.fdToKey fd).map Prod.fst) :
    l'.SelectorSound := by
  refine ⟨fun {k m} hl => ?_, fun {fd m mask} hk => ?_⟩
  · rw [hconnections] at hl
    rw [Keyed, hopen, hfd, hmap]
    exact h.entry hl
  · have hfst := hmap fd
    rw [hk, Option.map_some] at hfst
    obtain ⟨⟨m', mask'⟩, hk', rfl⟩ := Option.map_eq_some_iff.mp hfst.symm
    rw [hopen, hfd]
    exact h.key hk'

theorem SelectorSound.of_frame (h : l.SelectorSound) {n : Nat} (hf : Frame n l l')
    (ho : (l'.conns n).sck.isOpen = (l.conns n).sck.isOpen) : l'.SelectorSound := by
  apply h.of_same _ hf.fd hf.connections hf.fdToKey
  intro m
  by_cases hm : m = n
  · rw [hm, ho]
  · exact hf.isOpen m hm

theorem SelectorSound.enteredAt (h : l.SelectorSound) (ha : l.Armed) (halive : l.Alive)
    {m : QueuedRelayMessage} {fd : Nat} (hn : n ∉ l.created) (hfree : l.fdFree fd = true) :
    (l.enteredAt n m fd).SelectorSound := by
  refine ⟨fun {k x} hl => ?_, fun {x k mask} hk => ?_⟩
  · rw [enteredAt_lookup] at hl
    split at hl
    · obtain rfl := Option.some.inj hl
      refine ⟨by rw [enteredAt_conns_self]; rfl, ?_⟩
      rw [Keyed, enteredAt_conns_self, enteredAt_fdToKey, if_pos rfl]
      rfl
    · have hx := (ha.entry hl).1
      obtain ⟨ho, hk⟩ := h.entry hl
      refine ⟨by rw [enteredAt_conns_old hn hx]; exact ho, ?_⟩
      rw [Keyed, enteredAt_conns_old hn hx, enteredAt_fdToKey, if_neg (fd_ne_of_free hfree hx ho)]
      exact hk
  · rw [enteredAt_fdToKey] at hk
    split at hk
    · cases hk
      rw [enteredAt_conns_self]
      exact ⟨rfl, Eq.symm ‹_›⟩
    · rw [enteredAt_conns_old hn (ha.registered halive hk)]
      exact h.key hk

theorem SelectorSound.removed (h : l.SelectorSound) (ha : l.Armed) {addr : Peer}
    (hl : l.connections.lookup addr = some n) : (l.removed addr n).SelectorSound := by
  have hmap (x : Nat) : (l.removed addr n).fdToKey x =
    if x = (l.conns n).fd then none else l.fdToKey x := Function.update_apply ..
  have hother {m : Nat} (hm : m ≠ n) : (l.removed addr n).conns m = l.conns m :=
    Function.update_of_ne hm ..
  obtain ⟨-, hkeyed⟩ := h.entry hl
  refine ⟨fun {k m} hk => ?_, fun {fd m mask} hk => ?_⟩
  · simp only [LocalProxy.removed, Dict.lookup_erase] at hk
    split at hk
    · cases hk
    · rename_i hne
      have hmn : m ≠ n := by
        rintro rfl
        exact hne ((ha.entry hk).2.symm.trans (ha.entry hl).2)
      obtain ⟨ho, hkey⟩ := h.entry hk
      have hfd : (l.conns m).fd ≠ (l.conns n).fd := by
        intro he
        rw [Keyed, he] at hkey
        exact hmn (Option.some.inj (hkey.symm.trans hkeyed))
      rw [Keyed, hother hmn, hmap, if_neg hfd]
      exact ⟨ho, hkey⟩
  · rw [hmap] at hk
    split at hk
    · cases hk
    · rename_i hne
      obtain ⟨ho, hfd⟩ := h.key hk
      have hmn : m ≠ n := by
        rintro rfl
        exact hne hfd.symm
      rw [hother hmn]
      exact ⟨ho, hfd⟩

theorem SelectorSound.refusedAt (h : l.SelectorSound) (ha : l.Armed) (halive : l.Alive)
    {m : QueuedRelayMessage} {fd : Nat} (hn : n ∉ l.created) (hfree : l.fdFree fd = true) :
    (l.refusedAt n m fd).SelectorSound := by
  let l₁ := l.enteredAt n m fd
  let l₂ := l₁.setConn n { l₁.conns n with refused := true }
  have hc (k : Nat) : l₂.conns k = if k = n then { l₁.conns n with refused := true }
    else l₁.conns k := Function.update_apply ..
  have harmed : l₂.Armed := by
    have hentered := ha.enteredAt (m := m) hn hfree
    exact hentered.setConn rfl rfl id rfl hentered.flag
  have hsound : l₂.SelectorSound := by
    have hentered : l₁.SelectorSound := h.enteredAt ha halive hn hfree
    apply hentered.of_same
    · intro k
      rw [hc]
      split
      · rename_i hk
        rw [hk]
      · rfl
    · intro k
      rw [hc]
      split
      · rename_i hk
        rw [hk]
      · rfl
    · rfl
    · exact fun _ => rfl
  apply hsound.removed harmed
  exact (entered_lookup l n fd m m.peer).trans (if_pos rfl)

/-- A step that closes no socket of its own keeps the selector sound. -/
theorem Change.sound (h : l.SelectorSound) (ha : l.Armed) (halive : l.Alive)
    (hready : ∀ events, l.phase = .dispatch events → l.Ready events) (hc : Change l a l' puts)
    (hstays : ∀ n mask events io, l.phase = .dispatch ((.conn n, mask) :: events) → a = .io io →
      (l'.conns n).sck.isOpen) : l'.Alive → l'.SelectorSound := by
  have hsame {l l' : LocalProxy} (h : l.SelectorSound) (hconns : l'.conns = l.conns)
      (hconnections : l'.connections = l.connections) (hmap : l'.fdToKey = l.fdToKey) :
      l'.SelectorSound :=
    h.of_same (fun m => by rw [hconns]) (fun m => by rw [hconns]) hconnections
      fun fd => by rw [hmap]
  intro halive'
  cases hc with
  | control | unknown | uncleaned => exact hsame h rfl rfl rfl
  | made n fd m rest io phase hact hs ht hk hn hfree hkey =>
    exact hsame (h.enteredAt ha halive hn hfree) rfl rfl rfl
  | refused n fd m rest io phase hact hs ht hk hn hfree hkey =>
    exact hsame (h.refusedAt ha halive hn hfree) rfl rfl rfl
  | clash | unmade | jammed | crash => exact absurd rfl (halive' _)
  | pushed n k m rest io phase hact ht hk hl hkey =>
    have hpushed : (l.pushed k m.data).SelectorSound := by
      apply h.of_frame (pushed_frame k m.data)
      simp [LocalProxy.pushed]
    exact hsame hpushed rfl rfl rfl
  | removed n k m rest io phase hact ht hk hl hkey => exact hsame (h.removed ha hl) rfl rfl rfl
  | @own l₁ puts n mask events io hp hact hown =>
    have ho := ((hready _ hp).2 n mask List.mem_cons_self).2
    have ho' : (l₁.conns n).sck.isOpen := hstays n mask events io hp hact
    exact hsame (h.of_frame hown.frame (ho'.trans ho.symm)) rfl rfl rfl
  | dropped addr n hp hact hf hl hkey => exact h.removed ha hl

theorem SelectorSound.quiet (h : l.SelectorSound) (ha : l.Armed) (halive : l.Alive) :
    l.SelectorQuiet := by
  have hlookup {n : Nat} (hn : n ∈ l.created ∧ (l.conns n).sck.isOpen ∨
      ∃ k, l.connections.lookup k = some n) :
      (l.conns n).sck.isOpen ∧ l.lookupKey n = .ok (l.conns n).fd := by
    have hopen : n ∈ l.created ∧ (l.conns n).sck.isOpen := by
      rcases hn with hn | ⟨k, hk⟩
      · exact hn
      · exact ⟨(ha.entry hk).1, (h.entry hk).1⟩
    refine ⟨hopen.2, ?_⟩
    unfold lookupKey
    simp only
    rw [if_pos hopen.2, ha.keyed halive hopen.1 hopen.2]
    rfl
  refine ⟨fun {n events} hn => ?_, fun {n} hn => ?_, fun {fd n m} hfree => ?_⟩
  · obtain ⟨ho, hk⟩ := hlookup hn
    simp [LocalProxy.modify, hk, ho]
  · obtain ⟨-, hk⟩ := hlookup hn
    simp [LocalProxy.unregister, hk]
  · rw [register_entered]
    cases hkey : l.fdToKey fd with
    | none => rfl
    | some x =>
      obtain ⟨k, mask⟩ := x
      obtain ⟨ho, hfd⟩ := h.key hkey
      exact absurd hfd (fd_ne_of_free hfree (ha.registered halive hkey) ho)

end LocalProxy

namespace LocalRun

/-- The event is a callback that closes its socket. -/
def endsConn (s : LocalRun) : Event → Bool
  | .thread (.io io) =>
    match s.proxy.phase with
    | .dispatch ((.conn n, mask) :: _) => s.proxy.endsConn n mask io
    | _ => false
  | _ => false

/-- While the thread runs, every entry of its table is an open socket under its own descriptor. -/
def SelectorSound (s : LocalRun) : Prop := s.proxy.Alive → s.proxy.SelectorSound

theorem step_sound {s s' : LocalRun} {e : Event} (ha : s.Armed) (h : s.SelectorSound)
    (hends : s.endsConn e = false) (hs : step s e = some s') : s'.SelectorSound := by
  rcases step_cases hs with ⟨a, l, puts, rfl, hl, rfl⟩ | ⟨-, _, _, hs'⟩
  · have halive := LocalProxy.step_alive hl
    apply (ha.change hl).sound (h halive) ha.proxy halive fun _ hp => ha.ready hp
    rintro n mask events io hp rfl
    have ho := ((ha.ready hp).2 n mask List.mem_cons_self).2
    have hstays := LocalProxy.handleIoEvent_stays ho (show s.proxy.endsConn n mask io = false by
      simpa [endsConn, hp] using hends)
    simp only [LocalProxy.step, hp, Option.ite_none_right_eq_some, Option.some.injEq,
      Prod.mk.injEq] at hl
    obtain ⟨-, rfl, -⟩ := hl
    exact hstays
  · rw [SelectorSound, hs']
    intro halive
    exact (h halive).of_same (fun _ => rfl) (fun _ => rfl) rfl fun _ => rfl

/-- A callback that closes its socket leaves it registered. -/
theorem step_unsound {s s' : LocalRun} {e : Event} (ha : s.Armed) (hends : s.endsConn e = true)
    (hs : step s e = some s') : ¬ s'.SelectorSound := by
  unfold endsConn at hends
  split at hends
  · rename_i io
    split at hends
    · rename_i n mask events hp
      obtain ⟨l, puts, hl, rfl⟩ := step_thread hs
      have halive := LocalProxy.step_alive hl
      obtain ⟨hn, ho⟩ := (ha.ready hp).2 n mask List.mem_cons_self
      obtain ⟨hraised, hclosed⟩ := LocalProxy.handleIoEvent_ends hends
      have hkeyed := ha.proxy.keyed halive hn ho
      obtain ⟨l₁, hc, hout⟩ := LocalProxy.handleIoEvent_change mask io ho
      have hl₁ : (s.proxy.handleIoEvent n mask io).state = l₁ := by
        rcases hout with ⟨-, hout⟩ | ⟨e, _, _, hr, -⟩
        · exact hout
        · cases hraised.symm.trans hr
      simp only [LocalProxy.step, hp, Option.ite_none_right_eq_some, Option.some.injEq,
        Prod.mk.injEq] at hl
      obtain ⟨-, rfl, -⟩ := hl
      intro hsound
      have hframe := hc.frame
      rw [← hl₁] at hframe
      have hfst := hframe.fdToKey (s.proxy.conns n).fd
      rw [hkeyed] at hfst
      obtain ⟨⟨k, mask'⟩, hk, rfl⟩ := Option.map_eq_some_iff.mp hfst
      have halive' :
          (LocalProxy.after (s.proxy.handleIoEvent k mask io) (.dispatch events)).Alive := by
        intro e
        simp [LocalProxy.after, hraised]
      have hopen := ((hsound halive').key hk).1
      cases hclosed.symm.trans hopen
    · cases hends
  · cases hends

/-- **The selector of the local proxy**: in every run in which no callback closes its socket, every
entry of the table is an open socket registered under its own descriptor, and no later call of the
selector raises; and the next step keeps this so exactly when it is no such callback either. -/
theorem selectorSound_iff {s s' : LocalRun} {e : Event}
    (h : Reachable (fun s e => s.endsConn e = false) s) (hs : step s e = some s') :
    (s.proxy.Alive → (∀ addr n, s.proxy.connections.lookup addr = some n →
      (s.proxy.conns n).sck.isOpen ∧
        (s.proxy.fdToKey (s.proxy.conns n).fd).map Prod.fst = some n) ∧ s.proxy.SelectorQuiet) ∧
    s.SelectorSound ∧ (s'.SelectorSound ↔ s.endsConn e = false) := by
  have hsound : s.SelectorSound := by
    apply h.invariant_of (J := SelectorSound) (K := Armed)
    · exact fun _ h => Reachable.armed h
    · rintro _ ⟨remotePort, rfl⟩ -
      exact ⟨by simp [start], by simp [start]⟩
    · exact fun _ _ _ ha h hP hs => step_sound ha h hP hs
  refine ⟨fun halive => ⟨fun addr n hl => ?_, ?_⟩, hsound, fun hs' => ?_, fun hends => ?_⟩
  · exact (hsound halive).entry hl
  · exact (hsound halive).quiet h.armed.proxy halive
  · by_contra hends
    exact step_unsound h.armed (by simpa using hends) hs hs'
  · exact step_sound h.armed hsound hends hs

theorem selectorSound_answered : ∃ s s', s.proxy.phase = .top ∧
    s.proxy.connections.lookup (.dotted 10 0 0 1, 5000) = some 0 ∧
    step s (.thread .turn) = some s' ∧ (s.proxy.conns 0).sck.isOpen ∧ s'.SelectorSound := by
  have hx : ((run (fun s e => !s.endsConn e) (receives [.ok [1]])).bind fun s =>
      (step s (.thread .turn)).map fun _ => (s.proxy.phase,
        s.proxy.connections.lookup (.dotted 10 0 0 1, 5000), s.endsConn (.thread .turn))) =
      some (.top, some 0, false) := by
    decide +kernel
  obtain ⟨s, hs, hx⟩ := Option.bind_eq_some_iff.mp hx
  obtain ⟨s', hs', hx⟩ := Option.map_eq_some_iff.mp hx
  simp only [Prod.mk.injEq] at hx
  obtain ⟨hp, hl, hends⟩ := hx
  have hr : Reachable (fun s e => s.endsConn e = false) s :=
    Reachable.of_run (fun _ _ h => by simpa using h) hs
  obtain ⟨hentry, -, hiff⟩ := selectorSound_iff hr hs'
  have halive : s.proxy.Alive := fun e he => by cases hp.symm.trans he
  exact ⟨s, s', hp, hl, hs', ((hentry halive).1 _ _ hl).1, hiff.mpr hends⟩

/-- The end of the stream leaves a closed socket in the table. -/
theorem answeredEof_unsound : ¬ ∀ s : LocalRun, Reachable (fun _ _ => True) s →
    s.proxy.phase = .top → ∀ addr n, s.proxy.connections.lookup addr = some n →
      (s.proxy.conns n).sck.isOpen ∧
        (s.proxy.fdToKey (s.proxy.conns n).fd).map Prod.fst = some n := by
  intro h
  have hx : (run (fun _ _ => true) (receives [.ok []])).map (fun s => (s.proxy.phase,
      s.proxy.connections.lookup (.dotted 10 0 0 1, 5000), (s.proxy.conns 0).sck.isOpen)) =
      some (.top, some 0, false) := by
    decide +kernel
  obtain ⟨s, hs, hx⟩ := Option.map_eq_some_iff.mp hx
  simp only [Prod.mk.injEq] at hx
  obtain ⟨hp, hl, hclosed⟩ := hx
  have hopen := (h s (Reachable.of_run (fun _ _ _ => trivial) hs) hp _ _ hl).1
  cases hclosed.symm.trans hopen

end LocalRun
end PortPort
