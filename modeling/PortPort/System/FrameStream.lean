import PortPort.System.ManagerFrames

/-! # The stream of frames to the client

Several relays put their messages on one queue. The frames that the management thread makes of them
are still, for each port and address, one session after the other. -/

namespace PortPort
open Function (update update_of_ne update_self)
open Sessions (run)
open Server (ManagerAction)
open Relay (RelayAction)

namespace Relay

/-- A relay begins to listen by a call of `listen`. -/
theorem step_listening {own : Prop} {r r' : Relay} {closeReq : Bool} {a : RelayAction}
    {puts : List (Nat × QueuedRelayMessage)} (hI : r.Inv own)
    (h : r.step closeReq a = some (r', puts)) (hl : r'.sck = .listening) :
    r.sck = .listening ∨ ∃ u, a = .listen (.ok u) := by
  have hsck := (step_change hI h).sck
  by_cases hs : r.phase = .start
  · cases a <;> simp only [Relay.step, hs] at h <;> try cases h
    rename_i result
    cases result with
    | ok u => exact .inr ⟨u, rfl⟩
    | error e =>
      cases h
      exact .inl hl
  by_cases hc : r.phase = .closing
  · cases a <;> simp only [Relay.step, hc] at h <;> try cases h
    split at h
    · rename_i addr haddr
      obtain ⟨n, hn⟩ := Dict.first?_mem haddr
      rw [cleanUpConnection_eq hI hn] at h
      cases h
      exact .inl hl
    · cases h
      cases hl
  · exact .inl ((hsck hs hc).symm.trans hl)

end Relay

theorem marks_append (addr : Peer) (qs qs' : List QueuedRelayMessage) :
    marks addr (qs ++ qs') = marks addr qs ++ marks addr qs' :=
  List.filterMap_append

namespace Server

/-- The frames that have been appended to `sendq`, and those that the items of `inbound_data` will
be. -/
def stream (s : Server) : List PortPortMessage :=
  s.mgr.sendLog ++ s.mgr.inboundData.map Manager.frameOf

/-- Some relay with this port has a connection under the address. -/
def Has (s : Server) (p : Int) (addr : Peer) : Prop :=
  ∃ i < s.nrelays, (s.relay i).identifyingPort = p ∧
    ((s.relay i).connectionTable.lookup addr).isSome

structure RelaySound (s : Server) (i : Nat) : Prop where
  inv : (s.relay i).Inv False
  staged : (s.relay i).Staged
  quiet : (s.relay i).Quiet
  port : 0 ≤ (s.relay i).identifyingPort ∧ (s.relay i).identifyingPort < 65536
  enqueued addr : run false (marks addr (s.enqueued i)) =
    some ((s.relay i).connectionTable.lookup addr).isSome

/-- The queue carries, under each port and address, the reports of one relay at a time. -/
structure Sound (s : Server) : Prop where
  relay : i < s.nrelays → s.RelaySound i
  unmade : s.nrelays ≤ i → s.enqueued i = []
  distinct : i < s.nrelays → j < s.nrelays → (s.relay i).sck = .listening →
    (s.relay j).sck = .listening → (s.relay i).identifyingPort = (s.relay j).identifyingPort → i = j
  items : q ∈ s.mgr.inboundData →
    ∃ i < s.nrelays, ItemOk (s.relay i).identifyingPort q ∧ q ∈ s.enqueued i
  sessions p addr : ∃ b, run false (frameMarks p addr s.stream) = some b ∧ (b = true ↔ s.Has p addr)

variable {s s' : Server}

theorem Sound.congr (h : s.Sound) (hr : s'.relay = s.relay) (hn : s'.nrelays = s.nrelays)
    (he : s'.enqueued = s.enqueued) (hl : s'.mgr.sendLog = s.mgr.sendLog)
    (hi : s'.mgr.inboundData = s.mgr.inboundData) : s'.Sound where
  relay {i} hlt := by
    have hi := h.relay (hn ▸ hlt)
    exact ⟨hr ▸ hi.inv, hr ▸ hi.staged, hr ▸ hi.quiet, hr ▸ hi.port,
      by rw [hr, he]; exact hi.enqueued⟩
  unmade hle := by
    rw [he]
    exact h.unmade (hn ▸ hle)
  distinct := by
    rw [hr, hn]
    exact h.distinct
  items := by
    rw [hr, hn, hi, he]
    exact h.items
  sessions p addr := by
    have hs : s'.stream = s.stream := by rw [stream, hl, hi, stream]
    have hh : s'.Has p addr ↔ s.Has p addr := by rw [Has, hr, hn, Has]
    rw [hs, hh]
    exact h.sessions p addr

/-! ## The relays -/

/-- While a relay listens, no other relay with its port has a connection. -/
theorem Sound.others (h : s.Sound) {rid i : Nat} (hrid : rid < s.nrelays) (hi : i < s.nrelays)
    (hne : i ≠ rid) (hl : (s.relay rid).sck = .listening)
    (hp : (s.relay i).identifyingPort = (s.relay rid).identifyingPort) (addr : Peer) :
    (s.relay i).connectionTable.lookup addr = none := by
  apply (h.relay hi).quiet
  intro hli
  exact hne (h.distinct hi hrid hli hl hp)

theorem Sound.has_iff (h : s.Sound) {rid : Nat} (hrid : rid < s.nrelays)
    (hl : (s.relay rid).sck = .listening) (addr : Peer) :
    s.Has (s.relay rid).identifyingPort addr ↔
      ((s.relay rid).connectionTable.lookup addr).isSome := by
  refine ⟨?_, fun hs => ⟨rid, hrid, rfl, hs⟩⟩
  rintro ⟨i, hi, hp, hs⟩
  by_cases hne : i = rid
  · exact hne ▸ hs
  · rw [h.others hrid hi hne hl hp] at hs
    cases hs

section
variable {rid : Nat} {a : RelayAction} {r : Relay} {puts : List (Nat × QueuedRelayMessage)}

theorem relayMoved_self (s : Server) (rid : Nat) (r : Relay)
    (puts : List (Nat × QueuedRelayMessage)) : (s.relayMoved rid r puts).relay rid = r :=
  update_self ..

theorem relayMoved_other {i : Nat} (hi : i ≠ rid) : (s.relayMoved rid r puts).relay i = s.relay i :=
  update_of_ne hi ..

theorem enqueued_self (s : Server) (rid : Nat) (r : Relay)
    (puts : List (Nat × QueuedRelayMessage)) :
    (s.relayMoved rid r puts).enqueued rid = s.enqueued rid ++ puts.map Prod.snd := update_self ..

theorem enqueued_other {i : Nat} (hi : i ≠ rid) :
    (s.relayMoved rid r puts).enqueued i = s.enqueued i := update_of_ne hi ..

theorem stream_relayMoved : (s.relayMoved rid r puts).stream =
    s.stream ++ (puts.map Prod.snd).map Manager.frameOf := by
  simp [stream, relayMoved]

variable (h : s.Sound) (hrid : rid < s.nrelays)
  (hr : (s.relay rid).step s.closeService a = some (r, puts))
  (hfresh : ∀ addr, a = .accept (.ok addr) → (s.relay rid).connectionTable.lookup addr = none)

include h hrid hr hfresh

theorem Sound.reported : Relay.Reported (s.relay rid) puts r :=
  Relay.step_reported (h.relay hrid).inv hfresh hr

theorem Sound.relayMoved_port (i : Nat) :
    ((s.relayMoved rid r puts).relay i).identifyingPort = (s.relay i).identifyingPort := by
  by_cases hi : i = rid
  · rw [hi, relayMoved_self, (h.reported hrid hr hfresh).port]
  · rw [relayMoved_other hi]

theorem Sound.relayMoved_relay {i : Nat} (hi : i < s.nrelays) :
    (s.relayMoved rid r puts).RelaySound i := by
  have hport := h.relayMoved_port hrid hr hfresh
  by_cases hne : i = rid
  · subst hne
    have hs := h.relay hi
    have hreport := h.reported hrid hr hfresh
    refine ⟨?_, ?_, ?_, ?_, fun addr => ?_⟩
    · rw [relayMoved_self]
      exact hs.inv.step nofun hr
    · rw [relayMoved_self]
      exact hs.staged.step hs.inv hr
    · rw [relayMoved_self]
      exact hs.quiet.step hs.inv hs.staged hr
    · rw [hport]
      exact hs.port
    · rw [relayMoved_self, enqueued_self, marks_append, Sessions.run_append_of (hs.enqueued addr)]
      exact hreport.marks addr
  · have hi := h.relay hi
    have hrelay : (s.relayMoved rid r puts).relay i = s.relay i := relayMoved_other hne
    exact ⟨hrelay ▸ hi.inv, hrelay ▸ hi.staged, hrelay ▸ hi.quiet, hrelay ▸ hi.port, by
      rw [hrelay, enqueued_other hne]
      exact hi.enqueued⟩

omit hfresh in
/-- A relay that begins to listen finds no other one listening on its port. -/
theorem Sound.listens_alone (hblock : s.listenBlocked rid a = false) {k : Nat} (hk : k < s.nrelays)
    (hl : (s.relay k).sck = .listening)
    (hp : (s.relay k).identifyingPort = (s.relay rid).identifyingPort) (hl' : r.sck = .listening) :
    k = rid := by
  rcases Relay.step_listening (h.relay hrid).inv hr hl' with hl' | ⟨u, rfl⟩
  · exact h.distinct hk hrid hl hl' hp
  · by_contra hne
    have hmem : s.portListening rid (s.relay rid).identifyingPort = true := by
      simp only [portListening, List.any_eq_true, List.mem_range]
      exact ⟨k, hk, by simp [hne, hl, hp]⟩
    cases hblock.symm.trans hmem

theorem Sound.relayMoved_distinct (hblock : s.listenBlocked rid a = false) {i j : Nat}
    (hi : i < s.nrelays) (hj : j < s.nrelays)
    (hli : ((s.relayMoved rid r puts).relay i).sck = .listening)
    (hlj : ((s.relayMoved rid r puts).relay j).sck = .listening)
    (hp : ((s.relayMoved rid r puts).relay i).identifyingPort =
      ((s.relayMoved rid r puts).relay j).identifyingPort) : i = j := by
  have hport := h.relayMoved_port hrid hr hfresh
  rw [hport, hport] at hp
  by_cases hir : i = rid
  · by_cases hjr : j = rid
    · exact hir.trans hjr.symm
    · subst hir
      rw [relayMoved_self] at hli
      rw [relayMoved_other hjr] at hlj
      exact (h.listens_alone hrid hr hblock hj hlj hp.symm hli).symm
  · by_cases hjr : j = rid
    · subst hjr
      rw [relayMoved_self] at hlj
      rw [relayMoved_other hir] at hli
      exact h.listens_alone hrid hr hblock hi hli hp hlj
    · rw [relayMoved_other hir] at hli
      rw [relayMoved_other hjr] at hlj
      exact h.distinct hi hj hli hlj hp

/-- The table of the relay has changed for the port only if the port is its own. -/
theorem Sound.relayMoved_has {p : Int} (addr : Peer) (ht : (s.relay rid).identifyingPort = p →
      r.connectionTable = (s.relay rid).connectionTable) :
    s.Has p addr ↔ (s.relayMoved rid r puts).Has p addr := by
  have hport := h.relayMoved_port hrid hr hfresh
  have htab (i : Nat) (hp : (s.relay i).identifyingPort = p) :
      ((s.relayMoved rid r puts).relay i).connectionTable = (s.relay i).connectionTable := by
    by_cases hi : i = rid
    · subst hi
      rw [relayMoved_self, ht hp]
    · rw [relayMoved_other hi]
  constructor
  · rintro ⟨i, hi, hp, hsome⟩
    exact ⟨i, hi, (hport i).trans hp, (htab i hp).symm ▸ hsome⟩
  · rintro ⟨i, hi, hp, hsome⟩
    rw [hport] at hp
    exact ⟨i, hi, hp, htab i hp ▸ hsome⟩

theorem Sound.relayMoved_sessions (p : Int) (addr : Peer) :
    ∃ b, run false (frameMarks p addr (s.relayMoved rid r puts).stream) = some b ∧
      (b = true ↔ (s.relayMoved rid r puts).Has p addr) := by
  have hreport := h.reported hrid hr hfresh
  have hport := h.relayMoved_port hrid hr hfresh
  have hrelayPort : ∀ q ∈ puts.map Prod.snd, q.relayPort = (s.relay rid).identifyingPort := by
    intro q hq
    obtain ⟨x, hx, rfl⟩ := List.mem_map.mp hq
    exact (hreport.items x hx).relayPort
  obtain ⟨b, hb, hhas⟩ := h.sessions p addr
  rw [stream_relayMoved, frameMarks_append, Sessions.run_append_of hb,
    frameMarks_frameOf addr hrelayPort]
  by_cases hp : (s.relay rid).identifyingPort = p
  · rw [if_pos hp]
    by_cases hl : (s.relay rid).sck = .listening
    · subst hp
      have hb : b = ((s.relay rid).connectionTable.lookup addr).isSome :=
        Bool.eq_iff_iff.mpr (hhas.trans (h.has_iff hrid hl addr))
      refine ⟨_, hb ▸ hreport.marks addr, ?_, ?_⟩
      · exact fun hsome => ⟨rid, hrid, hport rid, (relayMoved_self s rid r puts).symm ▸ hsome⟩
      · rintro ⟨i, hi, hpi, hsome⟩
        by_cases hne : i = rid
        · rwa [hne, relayMoved_self] at hsome
        · rw [hport] at hpi
          rw [relayMoved_other hne, h.others hrid hi hne hl hpi] at hsome
          cases hsome
    · obtain ⟨rfl, ht⟩ := Relay.step_silent (h.relay hrid).staged hl hr
      exact ⟨b, rfl, hhas.trans (h.relayMoved_has hrid hr hfresh addr fun _ => ht)⟩
  · rw [if_neg hp]
    exact ⟨b, rfl, hhas.trans (h.relayMoved_has hrid hr hfresh addr fun hp' => absurd hp' hp)⟩

theorem Sound.relayMoved (hblock : s.listenBlocked rid a = false) :
    (s.relayMoved rid r puts).Sound where
  relay hi := h.relayMoved_relay hrid hr hfresh hi
  unmade {i} hi := by
    have hne : i ≠ rid := fun he => absurd hrid (Nat.not_lt_of_le (he ▸ hi))
    exact (enqueued_other hne).trans (h.unmade hi)
  distinct hi hj := h.relayMoved_distinct hrid hr hfresh hblock hi hj
  items {q} hq := by
    have hport := h.relayMoved_port hrid hr hfresh
    rcases List.mem_append.mp hq with hq | hq
    · obtain ⟨i, hi, hok, hqi⟩ := h.items hq
      refine ⟨i, hi, hport i ▸ hok, ?_⟩
      by_cases hne : i = rid
      · subst hne
        rw [enqueued_self]
        exact List.mem_append_left _ hqi
      · rwa [enqueued_other hne]
    · have hqi : q ∈ (s.relayMoved rid r puts).enqueued rid := by
        rw [enqueued_self]
        exact List.mem_append_right _ hq
      obtain ⟨x, hx, rfl⟩ := List.mem_map.mp hq
      exact ⟨rid, hrid, hport rid ▸ (h.reported hrid hr hfresh).items x hx, hqi⟩
  sessions p addr := h.relayMoved_sessions hrid hr hfresh p addr

end

/-! ## The management thread -/

theorem Sound.wellFormed (h : s.Sound) :
    ∀ q ∈ s.mgr.inboundData, WellFormed (Manager.frameOf q) := by
  intro q hq
  obtain ⟨i, hi, hok, -⟩ := h.items hq
  exact hok.wellFormed (h.relay hi).port

section
variable {a : ManagerAction} (h : s.Sound) (hs : s.mgrStep a = some s')
include h hs

/-- A relay that the thread has just made. -/
theorem Sound.mgrStep_new {i : Nat} (hi : i < s'.nrelays) (hn : ¬ i < s.nrelays) :
    s'.enqueued i = [] ∧ ∃ p, 0 < p ∧ p < 65536 ∧ s'.relay i = { identifyingPort := p } := by
  obtain ⟨henq, hmade⟩ := mgrStep_made hs
  refine ⟨henq ▸ h.unmade (Nat.le_of_not_lt hn), ?_⟩
  rcases hmade with he | ⟨he, -, p, hp⟩
  · exact absurd (he ▸ hi) hn
  · have hi : i = s.nrelays := by omega
    exact ⟨p, hp.1, hp.2.1, hi ▸ hp.2.2⟩

theorem Sound.mgrStep_relay {i : Nat} (hi : i < s'.nrelays) : s'.RelaySound i where
  inv := by
    refine mgrStep_relays hs hi (fun hlt _ _ _ _ => ?_) fun p _ _ => RelayRun.Inv.start False p
    have hinv := (h.relay hlt).inv
    exact { hinv with }
  staged := mgrStep_relays hs hi (fun hlt _ _ _ _ => (h.relay hlt).staged) fun _ _ _ => rfl
  quiet := mgrStep_relays hs hi (fun hlt _ _ _ _ => (h.relay hlt).quiet) fun _ _ _ _ _ => rfl
  port := by
    apply mgrStep_relays (P := fun r => 0 ≤ r.identifyingPort ∧ r.identifyingPort < 65536) hs hi
    · exact fun hlt _ _ _ _ => (h.relay hlt).port
    · exact fun p hpos hmax => ⟨Int.le_of_lt hpos, hmax⟩
  enqueued addr := by
    by_cases hlt : i < s.nrelays
    · obtain ⟨_, _, _, _, hrelay⟩ := (mgrStep_relaysKept hs).2 i hlt
      rw [hrelay, (mgrStep_made hs).enqueued]
      exact (h.relay hlt).enqueued addr
    · obtain ⟨henq, p, -, -, hrelay⟩ := h.mgrStep_new hs hi hlt
      rw [hrelay, henq]
      rfl

theorem Sound.mgrStep_listening {i : Nat} (hi : i < s'.nrelays)
    (hl : (s'.relay i).sck = .listening) : i < s.nrelays ∧ (s.relay i).sck = .listening ∧
      (s'.relay i).identifyingPort = (s.relay i).identifyingPort := by
  by_cases hlt : i < s.nrelays
  · obtain ⟨_, _, _, _, hrelay⟩ := (mgrStep_relaysKept hs).2 i hlt
    rw [hrelay] at hl ⊢
    exact ⟨hlt, hl, rfl⟩
  · obtain ⟨-, p, -, -, hrelay⟩ := h.mgrStep_new hs hi hlt
    rw [hrelay] at hl
    cases hl

theorem Sound.mgrStep_has (p : Int) (addr : Peer) : s.Has p addr ↔ s'.Has p addr := by
  obtain ⟨hn, hkept⟩ := mgrStep_relaysKept hs
  constructor
  · rintro ⟨i, hi, hp, hsome⟩
    obtain ⟨_, _, _, _, hrelay⟩ := hkept i hi
    exact ⟨i, Nat.lt_of_lt_of_le hi hn, by rw [hrelay]; exact hp, by rw [hrelay]; exact hsome⟩
  · rintro ⟨i, hi, hp, hsome⟩
    by_cases hlt : i < s.nrelays
    · obtain ⟨_, _, _, _, hrelay⟩ := hkept i hlt
      rw [hrelay] at hp hsome
      exact ⟨i, hlt, hp, hsome⟩
    · obtain ⟨-, p', -, -, hrelay⟩ := h.mgrStep_new hs hi hlt
      rw [hrelay] at hsome
      cases hsome

/-- The thread changes the stream by no mark. -/
theorem Sound.mgrStep_marks (p : Int) (addr : Peer) :
    frameMarks p addr s'.stream = frameMarks p addr s.stream := by
  rcases mgrStep_unmarked hs h.wellFormed with ⟨⟨fs, hlog, hfs⟩, hi⟩ | ⟨q, left, -, hi, hlog⟩
  · rw [stream, stream, hlog, hi]
    simp only [frameMarks_append, frameMarks_nil hfs, List.append_nil]
  · rw [stream, stream, hlog, hi, List.map_cons, List.append_assoc, List.singleton_append]

theorem Sound.mgrStep : s'.Sound where
  relay hi := h.mgrStep_relay hs hi
  unmade {i} hi := by
    rw [(mgrStep_made hs).enqueued]
    exact h.unmade (Nat.le_trans (mgrStep_relaysKept hs).1 hi)
  distinct hi hj hli hlj hp := by
    obtain ⟨hi, hli, hpi⟩ := h.mgrStep_listening hs hi hli
    obtain ⟨hj, hlj, hpj⟩ := h.mgrStep_listening hs hj hlj
    exact h.distinct hi hj hli hlj (hpi.symm.trans (hp.trans hpj))
  items {q} hq := by
    have hq : q ∈ s.mgr.inboundData := by
      rcases mgrStep_unmarked hs h.wellFormed with ⟨-, hi⟩ | ⟨q', left, -, hi, -⟩
      · exact hi ▸ hq
      · exact hi ▸ List.mem_cons_of_mem _ hq
    obtain ⟨i, hi, hok, hqi⟩ := h.items hq
    obtain ⟨hn, hkept⟩ := mgrStep_relaysKept hs
    obtain ⟨_, _, _, _, hrelay⟩ := hkept i hi
    exact ⟨i, Nat.lt_of_lt_of_le hi hn, by rw [hrelay]; exact hok, (mgrStep_made hs).enqueued ▸ hqi⟩
  sessions p addr := by
    obtain ⟨b, hb, hhas⟩ := h.sessions p addr
    exact ⟨b, by rw [h.mgrStep_marks hs, hb], hhas.trans (h.mgrStep_has hs p addr)⟩

end
end Server

/-! ## Frames behind the announcement -/

/-- Every frame about a connection comes after one that announces a relay with its port. -/
def Ordered (fs : List PortPortMessage) : Prop :=
  ∀ pre f post, fs = pre ++ f :: post → frameMark f.msgType ≠ none →
    ∃ g ∈ pre, Server.Opens f.relayPort g

theorem Ordered.append {fs fs' : List PortPortMessage} (h : Ordered fs)
    (hnew : ∀ f ∈ fs', frameMark f.msgType ≠ none → ∃ g ∈ fs, Server.Opens f.relayPort g) :
    Ordered (fs ++ fs') := by
  intro pre f post he hf
  rcases List.append_eq_append_iff.mp he with ⟨xs, rfl, hxs⟩ | ⟨xs, rfl, hxs⟩
  · obtain ⟨g, hg, ho⟩ := hnew f (hxs ▸ List.mem_append_right _ List.mem_cons_self) hf
    exact ⟨g, List.mem_append_left _ hg, ho⟩
  · cases xs with
    | nil =>
      rw [List.append_nil] at hnew
      rw [List.nil_append] at hxs
      exact hnew f (hxs ▸ List.mem_cons_self) hf
    | cons x xs =>
      obtain ⟨rfl, -⟩ := List.cons.inj hxs
      exact h pre f xs rfl hf

namespace Server
variable {s s' : Server} {a : ManagerAction}

theorem Sound.mgrStep_log (h : s.Sound) (hs : s.mgrStep a = some s') :
    s.mgr.sendLog <+: s'.mgr.sendLog := by
  rcases mgrStep_unmarked hs h.wellFormed with ⟨⟨fs, hlog, -⟩, -⟩ | ⟨q, left, -, -, hlog⟩
  · exact hlog ▸ List.prefix_append ..
  · exact hlog ▸ List.prefix_append ..

theorem Sound.mgrStep_ordered (h : s.Sound) (ha : s.Announced) (ho : Ordered s.mgr.sendLog)
    (hs : s.mgrStep a = some s') : Ordered s'.mgr.sendLog := by
  rcases mgrStep_unmarked hs h.wellFormed with ⟨⟨fs, hlog, hfs⟩, -⟩ | ⟨q, left, hp, hi, hlog⟩
  · rw [hlog]
    exact ho.append fun f hf hmark => absurd (hfs f hf) hmark
  · rw [hlog]
    apply ho.append
    intro f hf _
    obtain ⟨i, hlt, hok, hqi⟩ := h.items (hi ▸ List.mem_cons_self)
    rw [List.mem_singleton.mp hf, (frameOf_fields q).1, hok.relayPort]
    rcases ha i hlt with ho | hc | hm
    · exact ho
    · -- the drain is not the place where a new relay waits for its announcement
      cases hp.symm.trans hc
    · rw [hm.2] at hqi
      cases hqi

end Server

/-! ## Runs -/

namespace ManagerRun
open Server (Sound)

variable {s s' : ManagerRun} {e : Event}

/-- `accept` returns no address that is still in the table of the relay. -/
def FreshAccept (s : ManagerRun) (e : Event) : Prop :=
  ∀ rid addr, e = .relay rid (.accept (.ok addr)) →
    (s.server.relay rid).connectionTable.lookup addr = none

/-- The management thread does not ask a relay for the port to announce that has closed its
listening socket and has put messages on the queue. -/
def AsksOpen (s : ManagerRun) (e : Event) : Prop := ∀ a, e = .thread a → s.server.AsksOpen a

theorem step_sound (h : s.server.Sound) (hfresh : s.FreshAccept e) (hs : step s e = some s') :
    s'.server.Sound := by
  cases e with
  | thread a =>
    obtain ⟨server, hserver, rfl⟩ := Option.map_eq_some_iff.mp hs
    exact h.mgrStep hserver
  | relay rid a =>
    obtain ⟨⟨server, puts⟩, hserver, rfl⟩ := Option.map_eq_some_iff.mp hs
    obtain ⟨hrid, hblock, r, hr, rfl⟩ := Server.relayStep_cases hserver
    have hmoved := h.relayMoved hrid hr (fun addr ha => hfresh rid addr (ha ▸ rfl)) hblock
    exact hmoved.congr rfl rfl rfl rfl rfl
  | wakeup =>
    simp only [step, Option.ite_none_right_eq_some, Option.some.injEq] at hs
    obtain ⟨-, rfl⟩ := hs
    exact h.congr rfl rfl rfl rfl rfl
  | shutdown =>
    cases hs
    exact h.congr rfl rfl rfl rfl rfl

theorem sound_start (portRange : Option (Int × Int)) : (start portRange).server.Sound where
  relay h := absurd h (Nat.not_lt_zero _)
  unmade _ := rfl
  distinct h := absurd h (Nat.not_lt_zero _)
  items := nofun
  sessions _ _ :=
    ⟨false, rfl, iff_of_false Bool.false_ne_true fun ⟨_, h, _⟩ => absurd h (Nat.not_lt_zero _)⟩

theorem Reachable.sound {P : ManagerRun → Event → Prop} (hfresh : ∀ s e, P s e → FreshAccept s e)
    (h : Reachable P s) : s.server.Sound := by
  apply h.invariant (J := fun s => s.server.Sound)
  · rintro _ ⟨portRange, rfl⟩
    exact sound_start portRange
  · exact fun s e s' hJ hP hs => step_sound hJ (hfresh s e hP) hs

/-- Every relay has been announced before the frames about its connections. -/
structure InOrder (s : ManagerRun) : Prop where
  announced : s.server.Announced
  ordered : Ordered s.server.mgr.sendLog

theorem InOrder.step (h : s.InOrder) (hsound : s.server.Sound) (hasks : s.AsksOpen e)
    (hfresh : s.FreshAccept e) (hs : ManagerRun.step s e = some s') : s'.InOrder := by
  cases e with
  | thread a =>
    obtain ⟨server, hserver, rfl⟩ := Option.map_eq_some_iff.mp hs
    have hlog := hsound.mgrStep_log hserver
    exact ⟨Server.mgrStep_announced h.announced (hasks a rfl) (fun i hi => (hsound.relay hi).port)
      hlog hserver, hsound.mgrStep_ordered h.announced h.ordered hserver⟩
  | relay rid a =>
    obtain ⟨⟨server, puts⟩, hserver, rfl⟩ := Option.map_eq_some_iff.mp hs
    obtain ⟨hrid, hblock, r, hr, rfl⟩ := Server.relayStep_cases hserver
    have hport := hsound.relayMoved_port hrid hr fun addr ha => hfresh rid addr (ha ▸ rfl)
    refine ⟨fun i hi => ?_, h.ordered⟩
    rcases h.announced i hi with ho | hc | hm
    · rw [← hport i] at ho
      exact .inl ho
    · exact .inr (.inl hc)
    · -- a relay that has closed takes no step
      have hne : i ≠ rid := by
        rintro rfl
        cases (Relay.step_closed (hsound.relay hi).staged hm.1).symm.trans hr
      have hrelay : (s.server.relayMoved rid r puts).relay i = s.server.relay i :=
        Server.relayMoved_other hne
      have henq : (s.server.relayMoved rid r puts).enqueued i = s.server.enqueued i :=
        Server.enqueued_other hne
      exact .inr (.inr ⟨(congrArg Relay.sck hrelay).trans hm.1, henq.trans hm.2⟩)
  | wakeup =>
    simp only [ManagerRun.step, Option.ite_none_right_eq_some, Option.some.injEq] at hs
    obtain ⟨-, rfl⟩ := hs
    exact ⟨h.announced, h.ordered⟩
  | shutdown =>
    cases hs
    exact ⟨h.announced, h.ordered⟩

theorem Reachable.inOrder (h : Reachable (fun s e => s.FreshAccept e ∧ s.AsksOpen e) s) :
    s.InOrder := by
  apply h.invariant_of (K := fun s => s.server.Sound)
  · exact fun _ h => Reachable.sound (fun _ _ => And.left) h
  · rintro _ ⟨portRange, rfl⟩
    refine ⟨fun i hi => absurd hi (Nat.not_lt_zero _), fun pre f post he _ => ?_⟩
    cases pre <;> cases he
  · exact fun s e s' hsound h hP hs => h.step hsound hP.2 hP.1 hs

/-- **The frames to the client are well structured**: in every run in which `accept` returns no
address that is still in the table, and in which a relay that the management thread asks for the
port to announce has not closed its listening socket or has put nothing on the queue, a frame about
a connection comes after the OPEN_RELAY with its port, the frames about one address and port are
one session after the other, and of a relay that has closed, every NEW_CONNECTION it has put on the
queue is followed by its CLOSE_CONNECTION. -/
theorem frames_sessions (h : Reachable (fun s e => s.FreshAccept e ∧ s.AsksOpen e) s) :
    Ordered s.server.mgr.sendLog ∧
    (∀ p addr, ∃ w, Sessions.Whole w ∧ frameMarks p addr s.server.mgr.sendLog <+: w) ∧
    ∀ i < s.server.nrelays, (s.server.relay i).phase = .closed →
      ∀ addr, Sessions.Whole (marks addr (s.server.enqueued i)) := by
  have hsound : s.server.Sound := Reachable.sound (fun _ _ => And.left) h
  refine ⟨(Reachable.inOrder h).ordered, fun p addr => ?_, fun i hi hp addr => ?_⟩
  · obtain ⟨b, hb, -⟩ := hsound.sessions p addr
    obtain ⟨w, hw, hpre⟩ := Sessions.prefix_of_run hb
    rw [Server.stream, frameMarks_append] at hpre
    exact ⟨w, hw, (List.prefix_append ..).trans hpre⟩
  · obtain ⟨-, hstaged, -, -, henqueued⟩ := hsound.relay hi
    simp only [Relay.Staged, hp] at hstaged
    have hrun := henqueued addr
    rw [hstaged.2] at hrun
    exact Sessions.whole_iff.mpr hrun

/-! ## A relay that closes before it is announced -/

def freshAccept (s : ManagerRun) : Event → Bool
  | .relay rid (.accept (.ok addr)) => (s.server.relay rid).connectionTable.lookup addr = none
  | _ => true

def asksOpen (s : ManagerRun) : Event → Bool
  | .thread .turn =>
    match s.server.mgr.phase with
    | .creating rid => (s.server.relay rid).sck ≠ .closed || s.server.enqueued rid = []
    | _ => true
  | _ => true

theorem freshAccept_iff : freshAccept s e ↔ FreshAccept s e := by
  unfold freshAccept FreshAccept
  split
  · simp
  · rename_i hne
    simp only [true_iff]
    rintro rid addr rfl
    exact absurd rfl (hne rid addr)

theorem asksOpen_of_test (h : asksOpen s e) : AsksOpen s e := by
  rintro a rfl rid hp rfl hsck
  simpa [asksOpen, hp, hsck] using h

/-- The client asks for a relay, and the relay's thread is started. -/
def created : List Event :=
  let create : PortPortMessage := { msgType := .createRelay }
  [.thread (.select [(.client, .r)]),
    .thread (.clientIo { send := .ok 0, recv := .ok (encode create) }), .thread .turn,
    .thread (.recvTurn [.bound 4000])]

/-- The relay accepts one connection, and the service is shut down. -/
def acceptedOne : List Event :=
  [.relay 0 (.listen (.ok ())), .relay 0 (.select [(.listening, .r)]),
    .relay 0 (.accept (.ok System.Run.peer)), .shutdown] ++ List.replicate 5 (.relay 0 .turn)

theorem frames_sessions_closed : ∃ s : ManagerRun, (s.server.relay 0).phase = .closed ∧
    s.server.mgr.sendLog.map PortPortMessage.msgType =
      [.openRelay, .newConnection, .closeConnection] ∧
    Ordered s.server.mgr.sendLog ∧
    Sessions.Whole (marks System.Run.peer (s.server.enqueued 0)) := by
  have hx : (run (fun s e => freshAccept s e && asksOpen s e) (created ++ [.thread .turn] ++
      acceptedOne ++ [.thread (.recvTurn []), .thread .turn, .thread .turn])).map (fun s =>
        ((s.server.relay 0).phase, s.server.nrelays,
          s.server.mgr.sendLog.map PortPortMessage.msgType)) =
      some (.closed, 1, [.openRelay, .newConnection, .closeConnection]) := by
    decide +kernel
  obtain ⟨s, hs, hx⟩ := Option.map_eq_some_iff.mp hx
  simp only [Prod.mk.injEq] at hx
  obtain ⟨hp, hn, hlog⟩ := hx
  have hr : Reachable (fun s e => s.FreshAccept e ∧ s.AsksOpen e) s := by
    apply Reachable.of_run _ hs
    intro s e he
    rw [Bool.and_eq_true] at he
    exact ⟨freshAccept_iff.mp he.1, asksOpen_of_test he.2⟩
  obtain ⟨ho, -, hw⟩ := frames_sessions hr
  exact ⟨s, hp, hlog, ho, hw 0 (hn ▸ Nat.one_pos) hp _⟩

/-- The relay has accepted a connection and closed before the management thread asks it again for
the port. -/
theorem unannounced : ¬ ∀ s, Reachable FreshAccept s →
    Ordered s.server.mgr.sendLog ∧
    (∀ p addr, ∃ w, Sessions.Whole w ∧ frameMarks p addr s.server.mgr.sendLog <+: w) ∧
    ∀ i < s.server.nrelays, (s.server.relay i).phase = .closed →
      ∀ addr, Sessions.Whole (marks addr (s.server.enqueued i)) := by
  intro h
  have hx : (run freshAccept (created ++ acceptedOne ++ [.thread .turn, .thread .turn])).map
      (fun s => s.server.mgr.sendLog) =
      some [Manager.frameOf ⟨.newConnection, System.Run.peer.1, System.Run.peer.2, [], 4000⟩] := by
    decide +kernel
  obtain ⟨s, hs, hlog⟩ := Option.map_eq_some_iff.mp hx
  have hr := Reachable.of_run (fun _ _ => freshAccept_iff.mp) hs
  obtain ⟨g, hg, -⟩ := (h s hr).1 [] _ [] hlog (by decide)
  cases hg

end ManagerRun
end PortPort
