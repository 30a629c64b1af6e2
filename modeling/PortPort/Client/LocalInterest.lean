import PortPort.Client.LocalRun

/-! # Registration and write interest of the local connections -/

namespace PortPort
open Function (update)
open LocalProxy (LocalAction ConnectIO ConnIO)

namespace LocalProxy

/-- No exception has ended the thread. -/
def Alive (l : LocalProxy) : Prop := ∀ e, l.phase ≠ .crashed e

/-- While the thread runs, an open socket is registered under its descriptor, for write events
exactly while the `write_enabled` of its connection is set, which it is while bytes wait. -/
structure Armed (l : LocalProxy) : Prop where
  entry : l.connections.lookup k = some n → n ∈ l.created ∧ (l.conns n).addr = k
  registered : l.Alive → l.fdToKey fd = some (n, mask) → n ∈ l.created
  flag : (l.conns n).sendq ≠ [] → (l.conns n).writeEnabled = true
  keyed : l.Alive → n ∈ l.created → (l.conns n).sck.isOpen →
    l.fdToKey (l.conns n).fd = some (n, if (l.conns n).writeEnabled then .rw else .r)

/-- The events for which the socket of the connection `n` is registered. -/
def registeredEvents (l : LocalProxy) (n : Nat) : Option Mask :=
  match l.fdToKey (l.conns n).fd with
  | some (k, mask) => if k = n then some mask else none
  | none => none

theorem Armed.registeredEvents_eq {l : LocalProxy} (h : l.Armed) (ha : l.Alive) {n : Nat}
    (hn : n ∈ l.created) (ho : (l.conns n).sck.isOpen) :
    l.registeredEvents n = some (if (l.conns n).writeEnabled then .rw else .r) := by
  rw [registeredEvents, h.keyed ha hn ho]
  exact if_pos rfl

/-- Nothing has changed but the connection `n`, which keeps its address and its descriptor, and
what is registered under this descriptor. -/
structure Touched (n : Nat) (l l' : LocalProxy) : Prop where
  created : l'.created = l.created
  lookup : l'.connections.lookup k = some m → l.connections.lookup k = some m
  conns : m ≠ n → l'.conns m = l.conns m
  addr : (l'.conns n).addr = (l.conns n).addr
  fd : (l'.conns n).fd = (l.conns n).fd
  fdToKey : x ≠ (l.conns n).fd → l'.fdToKey x = l.fdToKey x

variable {l l' : LocalProxy} {a : LocalAction} {n : Nat} {mask : Mask} {io : ConnIO}
  {puts : List (Nat × QueuedRelayMessage)}

theorem Touched.of_update {c : ProxiedConnection} (hconns : l'.conns = update l.conns n c)
    (haddr : c.addr = (l.conns n).addr) (hfd : c.fd = (l.conns n).fd)
    (hcreated : l'.created = l.created)
    (hlookup : ∀ k m, l'.connections.lookup k = some m → l.connections.lookup k = some m)
    (hmap : ∀ fd ≠ (l.conns n).fd, l'.fdToKey fd = l.fdToKey fd) : Touched n l l' where
  created := hcreated
  lookup := hlookup _ _
  conns hm := by rw [hconns, Function.update_of_ne hm]
  addr := by rw [hconns, Function.update_self, haddr]
  fd := by rw [hconns, Function.update_self, hfd]
  fdToKey := hmap _

/-- Open sockets have different descriptors. -/
theorem Armed.fd_ne (h : l.Armed) (ha : l.Alive) {m : Nat} (hm : m ∈ l.created)
    (ho : (l.conns m).sck.isOpen) (hn : n ∈ l.created)
    (hk : (l.conns n).sck.isOpen ∨ l.Keyed n) (hne : m ≠ n) :
    (l.conns m).fd ≠ (l.conns n).fd := by
  intro hfd
  have hkeyed : l.Keyed n := by
    refine hk.elim (fun ho => ?_) id
    rw [Keyed, h.keyed ha hn ho]
    rfl
  rw [Keyed, ← hfd, h.keyed ha hm ho] at hkeyed
  exact hne (Option.some.inj hkeyed)

theorem Armed.touched (h : l.Armed) (ht : Touched n l l') (halive : l'.Alive → l.Alive)
    (hn : n ∈ l.created) (hk : (l.conns n).sck.isOpen ∨ l.Keyed n)
    (hflag : (l'.conns n).sendq ≠ [] → (l'.conns n).writeEnabled = true)
    (hreg : ∀ m mask, l'.fdToKey (l.conns n).fd = some (m, mask) →
      ∃ mask', l.fdToKey (l.conns n).fd = some (m, mask'))
    (hown : l'.Alive → (l'.conns n).sck.isOpen → l'.fdToKey (l.conns n).fd =
      some (n, if (l'.conns n).writeEnabled then .rw else .r)) : l'.Armed where
  entry := by
    intro k m hl
    have hm := h.entry (ht.lookup hl)
    rw [ht.created]
    by_cases hmn : m = n
    · subst hmn
      rwa [ht.addr]
    · rwa [ht.conns hmn]
  registered := by
    intro fd m mask ha hm
    rw [ht.created]
    by_cases hfd : fd = (l.conns n).fd
    · obtain ⟨mask', hm⟩ := hreg m mask (hfd ▸ hm)
      exact h.registered (halive ha) hm
    · exact h.registered (halive ha) ((ht.fdToKey hfd).symm.trans hm)
  flag := by
    intro m hm
    by_cases hmn : m = n
    · exact hmn ▸ hflag (hmn ▸ hm)
    · rw [ht.conns hmn] at hm ⊢
      exact h.flag hm
  keyed := by
    intro m ha hm ho
    by_cases hmn : m = n
    · subst hmn
      rw [ht.fd]
      exact hown ha ho
    · rw [ht.conns hmn] at ho ⊢
      rw [ht.created] at hm
      rw [ht.fdToKey (h.fd_ne (halive ha) hm ho hn hk hmn)]
      exact h.keyed (halive ha) hm ho

/-- A change of the connection alone that leaves its registration right. -/
theorem Armed.setConn (h : l.Armed) {c : ProxiedConnection} (haddr : c.addr = (l.conns n).addr)
    (hfd : c.fd = (l.conns n).fd) (ho : c.sck.isOpen → (l.conns n).sck.isOpen)
    (hw : c.writeEnabled = (l.conns n).writeEnabled)
    (hflag : c.sendq ≠ [] → (l.conns n).writeEnabled = true) : (l.setConn n c).Armed := by
  have hc (m : Nat) : (l.setConn n c).conns m = if m = n then c else l.conns m :=
    Function.update_apply ..
  refine ⟨fun {k m} hl => ?_, h.registered, fun {m} hq => ?_, fun {m} ha hm hopen => ?_⟩
  · have he := h.entry hl
    rw [hc]
    split
    · rename_i hmn
      rw [haddr, ← hmn]
      exact he
    · exact he
  · rw [hc] at hq ⊢
    split
    · rename_i hmn
      rw [if_pos hmn] at hq
      exact hw.trans (hflag hq)
    · rename_i hmn
      rw [if_neg hmn] at hq
      exact h.flag hq
  · rw [hc] at hopen ⊢
    split
    · rename_i hmn
      subst hmn
      rw [if_pos rfl] at hopen
      rw [hfd, hw]
      exact h.keyed ha hm (ho hopen)
    · rename_i hmn
      rw [if_neg hmn] at hopen
      exact h.keyed ha hm hopen

theorem setEvents_ne (events : Mask) {fd : Nat} (hfd : fd ≠ (l.conns n).fd) :
    l.setEvents n events fd = l.fdToKey fd := Function.update_of_ne hfd ..

theorem setEvents_self (events : Mask) : l.setEvents n events (l.conns n).fd =
    (l.fdToKey (l.conns n).fd).map fun (k, _) => (k, events) := Function.update_self ..

theorem setEvents_fst (events : Mask) (fd : Nat) :
    (l.setEvents n events fd).map Prod.fst = (l.fdToKey fd).map Prod.fst := by
  by_cases hfd : fd = (l.conns n).fd
  · subst hfd
    rw [setEvents_self, Option.map_map]
    rfl
  · rw [setEvents_ne _ hfd]

theorem setEvents_reg {events mask : Mask} {m : Nat}
    (h : l.setEvents n events (l.conns n).fd = some (m, mask)) :
    ∃ mask', l.fdToKey (l.conns n).fd = some (m, mask') := by
  rw [setEvents_self] at h
  obtain ⟨⟨k, mask'⟩, hk, he⟩ := Option.map_eq_some_iff.mp h
  cases he
  exact ⟨mask', hk⟩

theorem Armed.flushed (h : l.Armed) (len : Nat) (hn : n ∈ l.created)
    (ho : (l.conns n).sck.isOpen) (hq : (l.conns n).sendq ≠ []) : (l.flushed n len).Armed := by
  let sendq := (l.conns n).sendq.drop len
  let c : ProxiedConnection := { l.conns n with
    sck := (l.conns n).sck.send ((l.conns n).sendq.take len), sendq
    writeEnabled := (l.conns n).writeEnabled && sendq ≠ [] }
  have hself : (l.flushed n len).conns n = c := Function.update_self ..
  have hmap : (l.flushed n len).fdToKey = if sendq = [] then l.setEvents n .r else l.fdToKey := rfl
  have hw := h.flag hq
  refine h.touched (.of_update (c := c) rfl rfl rfl rfl (fun _ _ h => h) ?_) id hn (.inl ho)
    ?_ ?_ ?_
  · intro fd hfd
    rw [hmap]
    split
    · exact setEvents_ne _ hfd
    · rfl
  · intro hq
    rw [hself] at hq ⊢
    simpa [c, hw] using hq
  · intro m mask hm
    rw [hmap] at hm
    split at hm
    · exact setEvents_reg hm
    · exact ⟨mask, hm⟩
  · intro ha _
    rw [hmap, hself]
    split
    · rename_i hd
      rw [setEvents_self, h.keyed ha hn ho]
      simp [c, hd]
    · rename_i hd
      rw [h.keyed ha hn ho]
      simp [c, hd]

theorem Armed.pushed (h : l.Armed) (data : Bytes) (hn : n ∈ l.created)
    (hk : (l.conns n).writeEnabled = false → (l.conns n).sck.isOpen ∨ l.Keyed n) :
    (l.pushed n data).Armed := by
  let c : ProxiedConnection := { l.conns n with
    sendq := (l.conns n).sendq ++ data, writeEnabled := true }
  have hself : (l.pushed n data).conns n = c := Function.update_self ..
  cases hw : (l.conns n).writeEnabled with
  | true =>
    have hset : (l.setConn n c).Armed := h.setConn rfl rfl id hw.symm fun _ => hw
    have heq : l.pushed n data = l.setConn n c := by
      simp [LocalProxy.pushed, LocalProxy.setConn, hw, c]
    exact heq ▸ hset
  | false =>
    have hmap : (l.pushed n data).fdToKey = l.setEvents n .rw := by
      simp [LocalProxy.pushed, hw]
    refine h.touched (.of_update (c := c) rfl rfl rfl rfl (fun _ _ h => h) ?_) id hn (hk hw)
      ?_ ?_ ?_
    · intro fd hfd
      rw [hmap]
      exact setEvents_ne _ hfd
    · intro _
      rw [hself]
    · intro m mask hm
      rw [hmap] at hm
      exact setEvents_reg hm
    · intro ha ho
      rw [hself] at ho ⊢
      rw [hmap, setEvents_self, h.keyed ha hn ho]
      rfl

theorem Armed.removed (h : l.Armed) {addr : Peer} (hn : n ∈ l.created)
    (hk : (l.conns n).sck.isOpen ∨ l.Keyed n) : (l.removed addr n).Armed := by
  have hself : (l.removed addr n).conns n =
    { l.conns n with sck := (l.conns n).sck.close } := Function.update_self ..
  have hmap : (l.removed addr n).fdToKey = update l.fdToKey (l.conns n).fd none := rfl
  refine h.touched (.of_update rfl rfl rfl rfl ?_ ?_) id hn hk ?_ ?_ ?_
  · intro k m hl
    simp only [LocalProxy.removed, Dict.lookup_erase] at hl
    split at hl
    · cases hl
    · exact hl
  · intro fd hfd
    rw [hmap, Function.update_of_ne hfd]
  · rw [hself]
    exact h.flag
  · intro m mask hm
    rw [hmap, Function.update_self] at hm
    cases hm
  · intro ha ho
    rw [hself] at ho
    simp at ho

/-- A connection entered in the table and registered under a free descriptor. -/
theorem Armed.enteredAt (h : l.Armed) {m : QueuedRelayMessage} {fd : Nat} (hn : n ∉ l.created)
    (hfree : l.fdFree fd = true) : (l.enteredAt n m fd).Armed := by
  refine ⟨fun {k x} hl => ?_, fun {x k mask} ha hk => ?_, fun {k} hq => ?_, fun {k} ha hk ho => ?_⟩
  · rw [enteredAt_lookup] at hl
    split at hl
    · rename_i hk
      obtain rfl := Option.some.inj hl
      exact ⟨List.mem_cons_self, by rw [enteredAt_conns_self, hk]⟩
    · obtain ⟨hx, haddr⟩ := h.entry hl
      exact ⟨List.mem_cons_of_mem _ hx, by rw [enteredAt_conns_old hn hx, haddr]⟩
  · rw [enteredAt_fdToKey] at hk
    split at hk
    · cases hk
      exact List.mem_cons_self
    · exact List.mem_cons_of_mem _ (h.registered ha hk)
  · by_cases hkn : k = n
    · subst hkn
      rw [enteredAt_conns_self] at hq
      exact absurd rfl hq
    · have hc : (l.enteredAt n m fd).conns k = l.conns k := entered_conns_of_ne hkn
      rw [hc] at hq ⊢
      exact h.flag hq
  · by_cases hkn : k = n
    · subst hkn
      rw [enteredAt_conns_self, enteredAt_fdToKey, if_pos rfl]
      rfl
    · have hmem : k ∈ l.created := (List.mem_cons.mp hk).resolve_left hkn
      rw [enteredAt_conns_old hn hmem] at ho ⊢
      rw [enteredAt_fdToKey, if_neg (fd_ne_of_free hfree hmem ho)]
      exact h.keyed ha hmem ho

theorem Armed.refusedAt (h : l.Armed) {m : QueuedRelayMessage} {fd : Nat} (hn : n ∉ l.created)
    (hfree : l.fdFree fd = true) : (l.refusedAt n m fd).Armed := by
  have hentered := h.enteredAt (m := m) hn hfree
  have hset : ((l.enteredAt n m fd).setConn n
      { (l.enteredAt n m fd).conns n with refused := true }).Armed :=
    hentered.setConn rfl rfl id rfl hentered.flag
  apply hset.removed List.mem_cons_self
  apply Or.inl
  simp [LocalProxy.setConn, enteredAt_conns_self]
  rfl

/-! ## The steps -/

theorem flushed_frame (n len : Nat) : Frame n l (l.flushed n len) := by
  have hset : Frame n l (l.setConn n { l.conns n with
      sck := (l.conns n).sck.send ((l.conns n).sendq.take len)
      sendq := (l.conns n).sendq.drop len
      writeEnabled := (l.conns n).writeEnabled && (l.conns n).sendq.drop len ≠ [] }) :=
    .setConn rfl rfl rfl rfl
  refine { hset with fdToKey := fun x => ?_ }
  have hmap : (l.flushed n len).fdToKey =
    if (l.conns n).sendq.drop len = [] then l.setEvents n .r else l.fdToKey := rfl
  rw [hmap]
  split
  · exact setEvents_fst _ x
  · rfl

theorem pushed_frame (n : Nat) (data : Bytes) : Frame n l (l.pushed n data) := by
  have hset : Frame n l (l.setConn n { l.conns n with
      sendq := (l.conns n).sendq ++ data, writeEnabled := true }) := .setConn rfl rfl rfl rfl
  refine { hset with fdToKey := fun x => ?_ }
  have hmap : (l.pushed n data).fdToKey =
    if (l.conns n).writeEnabled then l.fdToKey else l.setEvents n .rw := rfl
  rw [hmap]
  split
  · rfl
  · exact setEvents_fst _ x

theorem OwnChange.frame (h : OwnChange l n mask io l' puts) : Frame n l l' := by
  induction h with
  | refl => exact .refl n l
  | recv data hd ho h ih => exact ih.trans (.setConn rfl rfl rfl rfl)
  | flush len ho hq h ih => exact ih.trans (flushed_frame n len)
  | hangup sck hs ho h ih => exact ih.trans (.setConn rfl rfl rfl rfl)
  | reset hm he ho h ih => exact ih.trans (.setConn rfl rfl rfl rfl)

/-- Only an item for which no socket could be made is lost. -/
theorem Change.lost (hc : Change l a l' puts) : l'.lost = l.lost ∨
    ∃ n m rest io e, a = .item n io ∧ l.toLocal = m :: rest ∧ m.kind = .newConnection ∧
      io.socket = .error e := by
  induction hc with
  | unmade n m rest io e ha hs ht hk => exact .inr ⟨n, m, rest, io, e, ha, ht, hk, hs⟩
  | own n mask events io hp ha h => exact .inl h.frame.lost
  | crash e fdToKey wakeupPending h ih => exact ih
  | _ => exact .inl rfl

theorem OwnChange.armed (hl : l.Armed) (hn : n ∈ l.created)
    (h : OwnChange l n mask io l' puts) : l'.Armed := by
  induction h with
  | refl => exact hl
  | recv data hd ho h ih => exact ih.setConn rfl rfl (fun _ => ho) rfl ih.flag
  | flush len ho hq h ih => exact ih.flushed len (h.frame.created ▸ hn) ho hq
  | hangup sck hs ho h ih => exact ih.setConn rfl rfl (fun _ => ho) rfl ih.flag
  | reset hm he ho h ih => exact ih.setConn rfl rfl (fun _ => ho) rfl ih.flag

theorem Armed.control (h : l.Armed) (halive : l'.Alive → l.Alive)
    (hconns : l'.conns = l.conns) (hcreated : l'.created = l.created)
    (hconnections : l'.connections = l.connections)
    (hmap : l'.Alive → l'.fdToKey = l.fdToKey) : l'.Armed where
  entry := by
    rw [hconnections, hcreated, hconns]
    exact h.entry
  registered := by
    intro fd n mask ha
    rw [hmap ha, hcreated]
    exact h.registered (halive ha)
  flag := by
    rw [hconns]
    exact h.flag
  keyed := by
    intro n ha
    rw [hmap ha, hcreated, hconns]
    exact h.keyed (halive ha)

/-- The thread, which takes steps, is alive before them. -/
theorem step_alive {close : Bool} (h : l.step close a = some (l', puts)) : l.Alive := by
  intro e hp
  unfold step at h
  simp [hp] at h

theorem Change.armed (h : l.Armed) (hready : ∀ events, l.phase = .dispatch events → l.Ready events)
    (halive : l.Alive) (hc : Change l a l' puts) : l'.Armed := by
  induction hc with
  | control phase wakeupPending =>
    exact h.control (fun _ => halive) rfl rfl rfl fun _ => rfl
  | made n fd m rest io phase ha hs ht hk hn hfree hkey =>
    have hentered := h.enteredAt (m := m) hn hfree
    exact hentered.control (fun _ => halive) rfl rfl rfl fun _ => rfl
  | refused n fd m rest io phase ha hs ht hk hn hfree hkey =>
    have hrefused := h.refusedAt (m := m) hn hfree
    exact hrefused.control (fun _ => halive) rfl rfl rfl fun _ => rfl
  | clash n fd m rest io ha hs ht hk hn hfree hkey =>
    have hentered := h.enteredAt (m := m) hn hfree
    have hdead : ¬ ({ l.entered n m fd with
        toLocal := rest, phase := .crashed .keyError } : LocalProxy).Alive := fun h => h _ rfl
    exact hentered.control (fun h => absurd h hdead) rfl rfl rfl fun h => absurd h hdead
  | unmade n m rest io e ha hs ht hk =>
    exact h.control (fun _ => halive) rfl rfl rfl fun _ => rfl
  | unknown n m rest io phase ha ht hk hl =>
    exact h.control (fun _ => halive) rfl rfl rfl fun _ => rfl
  | pushed n k m rest io phase ha ht hk hl hkey =>
    have hpushed := h.pushed m.data (h.entry hl).1 hkey
    exact hpushed.control (fun _ => halive) rfl rfl rfl fun _ => rfl
  | jammed n k m rest io e fdToKey ha ht hk hl =>
    refine ⟨fun {p x} hx => ?_, fun ha => absurd rfl (ha e), fun {x} hq => ?_,
      fun ha => absurd rfl (ha e)⟩
    · have he := h.entry hx
      by_cases hxk : x = k
      · subst hxk
        simpa [LocalProxy.pushed] using he
      · simpa [LocalProxy.pushed, hxk] using he
    · by_cases hxk : x = k
      · subst hxk
        simp [LocalProxy.pushed]
      · simp only [LocalProxy.pushed, Function.update_of_ne hxk] at hq ⊢
        exact h.flag hq
  | removed n k m rest io phase ha ht hk hl hkey =>
    have hremoved : (l.removed m.peer k).Armed := h.removed (h.entry hl).1 hkey
    exact hremoved.control (fun _ => halive) rfl rfl rfl fun _ => rfl
  | uncleaned n m rest io e ha ht hk =>
    exact h.control (fun _ => halive) rfl rfl rfl fun _ => rfl
  | own n mask events io hp ha hown =>
    have hn := ((hready _ hp).2 n mask List.mem_cons_self).1
    have hp' := hown.frame.phase
    refine (hown.armed h hn).control (fun _ => ?_) rfl rfl rfl fun _ => rfl
    rw [Alive, hp']
    exact halive
  | dropped addr n hp ha hf hl hkey => exact h.removed (h.entry hl).1 hkey
  | @crash l' puts e fdToKey wakeupPending hc ih =>
    have hdead : ¬ ({ l' with phase := .crashed e, fdToKey, wakeupPending } : LocalProxy).Alive :=
      fun h => h _ rfl
    exact ih.control (fun h => absurd h hdead) rfl rfl rfl fun h => absurd h hdead

theorem step_ready {close : Bool} (h : l.Armed)
    (hready : ∀ events, l.phase = .dispatch events → l.Ready events)
    (hs : l.step close a = some (l', puts)) {events : List (LocalKey × Mask)}
    (hp : l'.phase = .dispatch events) : l'.Ready events := by
  have halive := step_alive hs
  cases step_moves hs with
  | begins =>
    simp only at hp
    split at hp <;> cases hp
  | item => cases after_phase hp nofun
  | selects _ hsel =>
    cases hp
    simp only [selectable, Bool.and_eq_true, decide_eq_true_eq, List.all_eq_true] at hsel
    refine ⟨hsel.1, fun n mask hm => ?_⟩
    have hn := hsel.2 _ hm
    cases hkey : l.fdToKey (l.conns n).fd with
    | none => simp [hkey] at hn
    | some x =>
      obtain ⟨k, registered⟩ := x
      simp only [hkey, Option.any_some, Bool.and_eq_true, decide_eq_true_eq] at hn
      obtain ⟨ho, rfl, -⟩ := hn
      exact ⟨h.registered halive hkey, ho⟩
  | @io n mask rest io hphase =>
    have hr := hready _ hphase
    obtain ⟨l₁, hc, hout⟩ := handleIoEvent_change mask io (hr.2 n mask List.mem_cons_self).2
    have htail := hr.tail hc.frame
    cases after_phase hp nofun
    rcases hout with ⟨hraised, hstate⟩ | ⟨e, _, _, hraised, hstate⟩
    · simp only [LocalProxy.after, hstate]
      exact htail
    · simp only [LocalProxy.after, hraised] at hp
      cases hp
  | wakeupRead hphase =>
    cases hp
    have hr := hready _ hphase
    exact ⟨(List.nodup_cons.mp hr.1).2, fun n mask hm => hr.2 n mask (List.mem_cons_of_mem _ hm)⟩
  | drops hph =>
    rw [cleanupSocket_phase, hph] at hp
    cases hp
  | _ => cases hp

end LocalProxy

namespace LocalRun

/-- Registrations are right, and the events still to be handled are about open sockets. -/
structure Armed (s : LocalRun) : Prop where
  proxy : s.proxy.Armed
  ready : s.proxy.phase = .dispatch events → s.proxy.Ready events

theorem Armed.pending {s : LocalRun} (h : s.Armed) : s.proxy.Pending :=
  fun _ _ _ hp hm => ((h.ready hp).2 _ _ hm).2

theorem Armed.change {s : LocalRun} (h : s.Armed) {a : LocalAction} {l : LocalProxy}
    {puts : List (Nat × QueuedRelayMessage)} (hl : s.proxy.step s.close a = some (l, puts)) :
    s.proxy.Change a l puts := LocalProxy.step_change h.pending hl

theorem Reachable.armed {P : LocalRun → Event → Prop} {s : LocalRun} (h : Reachable P s) :
    s.Armed := by
  apply h.invariant (J := Armed)
  · rintro _ ⟨remotePort, rfl⟩
    refine ⟨⟨?_, ?_, ?_, ?_⟩, nofun⟩
    · simp [start]
    · simp [start]
    · simp [start]
    · simp [start]
  · intro s e s' h _ hs
    rcases step_cases hs with ⟨a, l, puts, rfl, hl, rfl⟩ | ⟨-, _, _, hs'⟩
    · have halive := LocalProxy.step_alive hl
      exact ⟨(h.change hl).armed h.proxy (fun _ hp => h.ready hp) halive,
        LocalProxy.step_ready h.proxy (fun _ hp => h.ready hp) hl⟩
    · refine ⟨?_, ?_⟩
      · rw [hs']
        exact h.proxy.control id rfl rfl rfl fun _ => rfl
      · rw [hs']
        exact h.ready

/-- The thread is about to call `select`, with the close event unset. -/
structure Selecting (s : LocalRun) : Prop where
  phase : s.proxy.phase = .select
  close : s.close = false

end LocalRun
end PortPort
