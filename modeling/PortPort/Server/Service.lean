import PortPort.Lib.Apart
import PortPort.Server.RelayTable

/-! # The ports of all connections

Each connection that has passed the authentication has its management thread and its relays. What
they share is the kernel's table of ports: a socket is bound to a port as long as no socket listens
on it, and `listen` fails while another socket listens on the port. -/

namespace PortPort
open Relay (BindResult RelayAction)

structure Service where
  portRange : Option (Int × Int) := none
  closeService : Bool := false
  conn : Nat → ManagerRun
  nconns : Nat := 0
  /-- the port in the OPEN_RELAY frame about each relay -/
  announced : Nat × Nat → Option Int := fun _ => none
  /-- the relays whose `listen` failed while another relay listened on the port -/
  refused : List (Nat × Nat) := []

namespace Service

inductive Event
  /-- a newcomer has passed the authentication, and its thread starts -/
  | connect
  /-- a move of a thread of connection `c` -/
  | conn (c : Nat) (e : ManagerRun.Event)
  /-- nothing refers to a relay any more, and its socket is closed with it -/
  | collect (c rid : Nat)
  /-- the service's close event is set -/
  | shutdown

/-- The relay `k.2` of the connection `k.1`. -/
def relay (s : Service) (k : Nat × Nat) : Relay := (s.conn k.1).server.relay k.2

def port (s : Service) (k : Nat × Nat) : Int := (s.relay k).identifyingPort

/-- Some relay satisfies the test. -/
def anyRelay (s : Service) (test : Nat × Nat → Bool) : Bool :=
  (List.range s.nconns).any fun c =>
    (List.range (s.conn c).server.nrelays).any fun rid => test (c, rid)

/-- Some other relay than `k` listens on the port. -/
def portListening (s : Service) (k : Nat × Nat) (p : Int) : Bool :=
  s.anyRelay fun l => l ≠ k && (s.relay l).sck = .listening && s.port l = p

/-- The results of `bind` and `listen` that the other connections leave possible. -/
def kernelAllows (s : Service) (c : Nat) : ManagerRun.Event → Bool
  | .thread (.recvTurn results) => results.all fun
    | .bound p => !s.portListening (c, (s.conn c).server.nrelays) p
    | .osError _ | .overflow => true
  | .relay rid (.listen (.ok _)) => !s.portListening (c, rid) (s.port (c, rid))
  | .shutdown => false
  | _ => true

/-- The relay that a step of the thread announces, with the port it names. -/
def opened (m m' : Manager) : Option (Nat × Int) :=
  match m.phase with
  | .creating rid =>
    ((m'.sendLog.drop m.sendLog.length).find? fun f => f.msgType = .openRelay).map
      fun f => (rid, f.relayPort)
  | _ => none

/-- The relay whose `listen` fails because another relay has taken the port. -/
def refusedBy (s : Service) (c : Nat) : ManagerRun.Event → List (Nat × Nat)
  | .relay rid (.listen (.error _)) =>
    if s.portListening (c, rid) (s.port (c, rid)) then [(c, rid)] else []
  | _ => []

def setConn (s : Service) (c : Nat) (m : ManagerRun) : Service :=
  { s with conn := Function.update s.conn c m }

/-- The threads of the connection `c` have come to `m` by the event. -/
def moved (s : Service) (c : Nat) (e : ManagerRun.Event) (m : ManagerRun) : Service :=
  { s.setConn c m with
    announced := match opened (s.conn c).server.mgr m.server.mgr with
      | some (rid, p) => Function.update s.announced (c, rid) (some p)
      | none => s.announced
    refused := s.refused ++ s.refusedBy c e }

/-- The thread of the relay has ended, and the table does not hold the relay. -/
def abandoned (s : Server) (rid : Nat) : Bool :=
  s.joined rid && !s.Registers rid

def step (s : Service) : Event → Option Service
  | .connect =>
    let server := { (ManagerRun.start s.portRange).server with closeService := s.closeService }
    some { s.setConn s.nconns { server } with nconns := s.nconns + 1 }
  | .conn c e =>
    if c < s.nconns && s.kernelAllows c e then ((s.conn c).step e).map (s.moved c e) else none
  | .collect c rid =>
    let server := (s.conn c).server
    if c < s.nconns && abandoned server rid then
      some (s.setConn c { s.conn c with
        server := server.setRelay rid { server.relay rid with sck := .closed } })
    else none
  | .shutdown =>
    some { s with
      closeService := true
      conn := fun c => { s.conn c with server := { (s.conn c).server with closeService := true } } }

/-- No connection has been accepted. -/
def Init (s : Service) : Prop := ∃ portRange, s = { portRange, conn := fun _ => .start portRange }

abbrev Reachable (P : Service → Event → Prop) : Service → Prop :=
  Transition.Reach (Transition.Fires step) P Init

def Owned (s : Service) (k : Nat × Nat) : Prop :=
  k.1 < s.nconns ∧ k.2 < (s.conn k.1).server.nrelays

/-- The thread of the relay has not yet called `listen`. -/
def Starting (s : Service) (k : Nat × Nat) : Prop := s.Owned k ∧ (s.relay k).phase = .start

/-- The relay is in the table of its connection. -/
def Registered (s : Service) (k : Nat × Nat) : Prop :=
  s.Owned k ∧ (s.conn k.1).server.Registers k.2

def Listening (s : Service) (k : Nat × Nat) : Prop := s.Owned k ∧ (s.relay k).sck = .listening

/-- No two registered relays have been announced with the same port. -/
def Exclusive (s : Service) : Prop := ∀ k l p, s.Registered k → s.Registered l →
  s.announced k = some p → s.announced l = some p → k = l

/-- No relay that has been announced has failed in `listen` because another one took the port. -/
def Live (s : Service) : Prop := ∀ k p, s.announced k = some p → k ∉ s.refused

/-- A relay still to call `listen` has the port, or a relay in the table of another connection. -/
def portUsed (s : Service) (c : Nat) (p : Int) : Bool :=
  s.anyRelay fun l => s.port l = p &&
    ((s.relay l).phase = .start || l.1 ≠ c && (s.conn l.1).server.Registers l.2)

/-- If the step makes a relay, its port is not in use in this way. -/
def bindsFree (s : Service) : Event → Bool
  | .conn c (.thread (.recvTurn results)) =>
    match (s.conn c).server.newPort results with
    | some p => !s.portUsed c p
    | none => true
  | _ => true

variable {s s' : Service} {e : Event}

theorem anyRelay_iff {test : Nat × Nat → Bool} :
    s.anyRelay test = true ↔ ∃ k, s.Owned k ∧ test k = true := by
  simp only [anyRelay, List.any_eq_true, List.mem_range]
  constructor
  · rintro ⟨c, hc, rid, hrid, h⟩
    exact ⟨(c, rid), ⟨hc, hrid⟩, h⟩
  · rintro ⟨⟨c, rid⟩, ⟨hc, hrid⟩, h⟩
    exact ⟨c, hc, rid, hrid, h⟩

theorem portListening_iff {k : Nat × Nat} {p : Int} :
    s.portListening k p = true ↔ ∃ l, s.Listening l ∧ l ≠ k ∧ s.port l = p := by
  refine anyRelay_iff.trans ⟨?_, ?_⟩
  · rintro ⟨l, hl, h⟩
    simp only [Bool.and_eq_true, decide_eq_true_eq] at h
    exact ⟨l, ⟨hl, h.1.2⟩, h.1.1, h.2⟩
  · rintro ⟨l, hl, hne, hp⟩
    exact ⟨l, hl.1, by simp [hne, hl.2, hp]⟩

theorem portUsed_iff {c : Nat} {p : Int} : s.portUsed c p = true ↔
    ∃ l, (s.Starting l ∨ s.Registered l ∧ l.1 ≠ c) ∧ s.port l = p := by
  refine anyRelay_iff.trans ⟨?_, ?_⟩
  · rintro ⟨l, hl, h⟩
    simp only [Bool.and_eq_true, Bool.or_eq_true, decide_eq_true_eq] at h
    exact ⟨l, h.2.imp (fun h => ⟨hl, h⟩) fun h => ⟨⟨hl, h.2⟩, h.1⟩, h.1⟩
  · rintro ⟨l, hs | ⟨hr, hne⟩, hp⟩
    · exact ⟨l, hs.1, by simp [hs.2, hp]⟩
    · exact ⟨l, hr.1, by simp [hr.2, hne, hp]⟩

/-- The relay has, or will have, the port to itself, or its client believes so. -/
def Holding (s : Service) (k : Nat × Nat) : Prop :=
  s.Starting k ∨ s.Registered k ∨ s.Listening k

theorem Holding.owned {k : Nat × Nat} (h : s.Holding k) : s.Owned k := by
  rcases h with h | h | h
  · exact h.1
  · exact h.1
  · exact h.1

/-- The relays of before have aged. -/
structure Aged (s s' : Service) : Prop where
  owned : ∀ k, s.Owned k → s'.Owned k
  port : ∀ k, s.Owned k → s'.port k = s.port k
  starting : ∀ k, s.Owned k → s'.Starting k → s.Starting k
  registered : ∀ k, s.Owned k → s'.Registered k → s.Registered k
  listening : ∀ k, s.Owned k → s'.Listening k → s.Listening k ∨ s.Starting k

/-- No other relay holds the port of a new one. -/
def Fresh (s s' : Service) : Prop :=
  ∀ k l, ¬ s.Owned k → s'.Holding k → s'.Holding l → l ≠ k → s'.port l ≠ s'.port k

theorem Aged.holding (h : Aged s s') {k : Nat × Nat} (hk : s.Owned k) (hh : s'.Holding k) :
    s.Holding k := by
  rcases hh with hs | hr | hl
  · exact .inl (h.starting k hk hs)
  · exact .inr (.inl (h.registered k hk hr))
  · exact (h.listening k hk hl).elim (fun hl => .inr (.inr hl)) .inl

theorem aged_of_conns (hn : s.nconns ≤ s'.nconns)
    (haged : ∀ c < s.nconns, Server.Aged (s.conn c).server (s'.conn c).server)
    (hreg : ∀ k, s.Owned k → (s'.conn k.1).server.Registers k.2 →
      (s.conn k.1).server.Registers k.2) : Aged s s' where
  owned k hk := ⟨hk.1.trans_le hn, hk.2.trans_le (haged k.1 hk.1).nrelays⟩
  port k hk := (haged k.1 hk.1).port k.2 hk.2
  starting k hk hs := ⟨hk, (haged k.1 hk.1).start k.2 hk.2 hs.2⟩
  registered k hk hr := ⟨hk, hreg k hk hr.2⟩
  listening k hk hl :=
    ((haged k.1 hk.1).listening k.2 hk.2 hl.2).imp (fun h => ⟨hk, h⟩) fun h => ⟨hk, h⟩

theorem fresh_of_owned (h : ∀ k, s'.Owned k → s.Owned k) : Fresh s s' :=
  fun k _ hk hk' => absurd (h k hk'.owned) hk

/-- What holds as long as the ports of new relays are free. -/
structure Sound (s : Service) : Prop where
  tables : ∀ c < s.nconns, (s.conn c).server.TableSound
  announced : ∀ k p, s.announced k = some p → s.Owned k ∧ s.port k = p
  starting : Apart s.port s.Starting s.Holding
  registered : Apart s.port s.Registered s.Registered
  refused : s.refused = []

theorem Sound.apart (h : s.Sound) (ha : Aged s s') (hf : Fresh s s') :
    Apart s'.port s'.Starting s'.Holding ∧ Apart s'.port s'.Registered s'.Registered := by
  constructor
  · refine h.starting.of_old ha.starting (fun k hk => ha.holding hk) ha.port ?_ ?_
    · intro k l hk hs hl hne
      exact (hf k l hk (.inl hs) hl hne.symm).symm
    · intro k l hl hs hh hne
      exact hf l k hl hh (.inl hs) hne
  · refine h.registered.of_old ha.registered ha.registered ha.port ?_ ?_
    · intro k l hk hr hl hne
      exact (hf k l hk (.inr (.inl hr)) (.inr (.inl hl)) hne.symm).symm
    · intro k l hl hr hh hne
      exact hf l k hl (.inr (.inl hh)) (.inr (.inl hr)) hne

theorem Sound.properties (h : s.Sound) : s.Exclusive ∧ s.Live := by
  refine ⟨fun k l p hk hl hpk hpl => ?_, fun k p _ => ?_⟩
  · refine h.registered.eq hk hl ?_
    rw [(h.announced k p hpk).2, (h.announced l p hpl).2]
  · rw [h.refused]
    exact List.not_mem_nil

/-! ## One move of a connection -/

section
variable {c : Nat} {x : ManagerRun.Event} {m : ManagerRun}

theorem setConn_conn (s : Service) (c : Nat) (m : ManagerRun) : (s.setConn c m).conn c = m :=
  Function.update_self ..

theorem setConn_other {d : Nat} (h : d ≠ c) : (s.setConn c m).conn d = s.conn d :=
  Function.update_of_ne h ..

theorem aged_setConn (hconn : s'.conn = (s.setConn c m).conn) (hn : s'.nconns = s.nconns)
    (haged : Server.Aged (s.conn c).server m.server)
    (hreg : ∀ rid < (s.conn c).server.nrelays, m.server.Registers rid →
      (s.conn c).server.Registers rid) : Aged s s' := by
  refine aged_of_conns hn.ge (fun d _ => ?_) fun ⟨d, rid⟩ hk hr => ?_
  · by_cases hd : d = c
    · subst hd
      rw [hconn, setConn_conn]
      exact haged
    · rw [hconn, setConn_other hd]
      exact .refl _
  · by_cases hd : d = c
    · subst hd
      rw [hconn, setConn_conn] at hr
      exact hreg rid hk.2 hr
    · rw [hconn, setConn_other hd] at hr
      exact hr

/-- A relay of `s'` is one of `s`, or one that connection `c` has made. -/
theorem owned_setConn (hconn : s'.conn = (s.setConn c m).conn) (hn : s'.nconns = s.nconns)
    {k : Nat × Nat} (hk : s'.Owned k) :
    s.Owned k ∨ k.1 = c ∧ (s.conn c).server.nrelays ≤ k.2 ∧ k.2 < m.server.nrelays := by
  obtain ⟨d, rid⟩ := k
  obtain ⟨hlt, hrid⟩ := hk
  rw [hn] at hlt
  by_cases hd : d = c
  · subst hd
    rw [hconn, setConn_conn] at hrid
    exact (lt_or_ge rid _).imp (fun h => ⟨hlt, h⟩) fun h => ⟨rfl, h, hrid⟩
  · rw [hconn, setConn_other hd] at hrid
    exact .inl ⟨hlt, hrid⟩

theorem moved_aged (h : (s.conn c).step x = some m) : Aged s (s.moved c x m) :=
  aged_setConn rfl rfl (ManagerRun.step_aged h) fun _ hrid => ManagerRun.step_registers h hrid

theorem moved_owned {k : Nat × Nat} (hk : (s.moved c x m).Owned k) :
    s.Owned k ∨ k.1 = c ∧ (s.conn c).server.nrelays ≤ k.2 ∧ k.2 < m.server.nrelays :=
  owned_setConn (c := c) (m := m) rfl rfl hk

/-- A relay made on a port that is not in use holds it alone. -/
theorem made_fresh {p : Int} (h0 : s.Sound) (haged : Aged s (s.moved c x m))
    (hn : m.server.nrelays = (s.conn c).server.nrelays + 1)
    (hr : m.server.mgr.relays = (s.conn c).server.mgr.relays.set p (s.conn c).server.nrelays)
    (hrelay : (m.server.relay (s.conn c).server.nrelays).identifyingPort = p)
    (hlisten : ¬ s.portListening (c, (s.conn c).server.nrelays) p)
    (hused : ¬ s.portUsed c p) : Fresh s (s.moved c x m) := by
  have hself {k : Nat × Nat} (hk : (s.moved c x m).Owned k) (hnot : ¬ s.Owned k) :
      k = (c, (s.conn c).server.nrelays) := by
    obtain ⟨hc, hge, hlt⟩ := (moved_owned hk).resolve_left hnot
    exact Prod.ext hc (by omega)
  have hconn : (s.moved c x m).conn c = m := s.setConn_conn c m
  intro k l hk hk' hl hne
  obtain rfl := hself hk'.owned hk
  have hown : s.Owned l := not_not.mp fun hnot => hne (hself hl.owned hnot)
  have hport : (s.moved c x m).port (c, (s.conn c).server.nrelays) = p := by
    simp only [port, relay, hconn, hrelay]
  rw [hport, haged.port l hown]
  intro hp
  have hstart (hs : s.Starting l) : False := hused (portUsed_iff.mpr ⟨l, .inl hs, hp⟩)
  rcases hl with hs | hl | hl
  · exact hstart (haged.starting l hown hs)
  · by_cases hlc : l.1 = c
    · obtain ⟨d, rid⟩ := l
      obtain rfl : d = c := hlc
      have hreg := hl.2.2
      rw [hconn] at hreg
      exact Server.set_registered (h0.tables d hown.1) hr hown.2 hreg hp
    · exact hused (portUsed_iff.mpr ⟨l, .inr ⟨haged.registered l hown hl, hlc⟩, hp⟩)
  · rcases haged.listening l hown hl with hl | hs
    · exact hlisten (portListening_iff.mpr ⟨l, hl, hne, hp⟩)
    · exact hstart hs

theorem moved_fresh (h0 : s.Sound) (hk : s.kernelAllows c x = true)
    (hfree : s.bindsFree (.conn c x) = true) (h : (s.conn c).step x = some m) :
    Fresh s (s.moved c x m) := by
  have haged := moved_aged h
  have hquiet (hn : m.server.nrelays = (s.conn c).server.nrelays) : Fresh s (s.moved c x m) := by
    refine fresh_of_owned fun k hk => ?_
    rcases moved_owned hk with hk | ⟨-, hge, hlt⟩
    · exact hk
    · omega
  -- only CREATE_RELAY makes a relay
  by_cases hx : ∀ a, x ≠ .thread a
  · exact hquiet (ManagerRun.step_nrelays hx h)
  push Not at hx
  obtain ⟨a, rfl⟩ := hx
  obtain ⟨server, hserver, rfl⟩ := Option.map_eq_some_iff.mp h
  cases Server.mgrStep_table hserver with
  | kept hn => exact hquiet hn
  | @made results p _ hb hnew hn hp hr hrelay =>
    refine made_fresh h0 haged hn hr ?_ ?_ ?_
    · simp only [hrelay, Function.update_self]
    · have hallowed := List.all_eq_true.mp hk _ hb
      simpa using hallowed
    · simpa only [bindsFree, hnew, Bool.not_eq_true', Bool.not_eq_true] using hfree

/-! ## Announcements -/

theorem opened_eq {m m' : Manager} {rid : Nat} {p : Int} (h : opened m m' = some (rid, p)) :
    m.phase = .creating rid ∧
      ∃ f ∈ m'.sendLog.drop m.sendLog.length, f.msgType = .openRelay ∧ f.relayPort = p := by
  unfold opened at h
  split at h
  · rename_i hph
    obtain ⟨f, hf, he⟩ := Option.map_eq_some_iff.mp h
    cases he
    exact ⟨hph, f, List.mem_of_find?_eq_some hf, by simpa using List.find?_some hf, rfl⟩
  · cases h

/-- The thread announces a relay with its port. -/
theorem opened_port {rid : Nat} {p : Int} (h : (s.conn c).step x = some m)
    (ho : opened (s.conn c).server.mgr m.server.mgr = some (rid, p)) :
    (s.conn c).server.mgr.phase = .creating rid ∧
      ((s.conn c).server.relay rid).identifyingPort = p := by
  obtain ⟨hph, f, hf, htype, rfl⟩ := opened_eq ho
  refine ⟨hph, ?_⟩
  rcases ManagerRun.step_mgr h with ⟨a, ha⟩ | ⟨inboundData, wakeupPending, hm⟩
  · simp only [Server.mgrStep, hph] at ha
    cases a with
    | turn =>
      obtain ⟨fs, hr, hfs⟩ := (s.conn c).server.announce_replies rid
      rw [← Option.some.inj ha, hr.sendLog, List.drop_left] at hf
      rcases hfs f hf with rfl | herror
      · rfl
      · cases htype.symm.trans herror
    | _ => cases ha
  · rw [hm, List.drop_length] at hf
    exact absurd hf List.not_mem_nil

theorem moved_announced (h0 : s.Sound) (hc : c < s.nconns) (h : (s.conn c).step x = some m)
    {k : Nat × Nat} {p : Int} (hp : (s.moved c x m).announced k = some p) :
    s.Owned k ∧ s.port k = p := by
  cases ho : opened (s.conn c).server.mgr m.server.mgr with
  | none =>
    simp only [moved, ho] at hp
    exact h0.announced k p hp
  | some o =>
    obtain ⟨rid, q⟩ := o
    obtain ⟨hph, hport⟩ := opened_port h ho
    simp only [moved, ho] at hp
    by_cases hk : k = (c, rid)
    · subst hk
      rw [Function.update_self] at hp
      cases hp
      exact ⟨⟨hc, (h0.tables c hc).creating rid hph⟩, hport⟩
    · rw [Function.update_of_ne hk] at hp
      exact h0.announced k p hp

/-- The port of a relay that calls `listen` is its own. -/
theorem refusedBy_eq_nil (h0 : s.Sound) (hc : c < s.nconns) (h : (s.conn c).step x = some m) :
    s.refusedBy c x = [] := by
  unfold refusedBy
  split
  · rename_i rid e
    obtain ⟨⟨server, puts⟩, hserver, -⟩ := Option.map_eq_some_iff.mp h
    obtain ⟨hrid, -, r, hr, -⟩ := Server.relayStep_cases hserver
    refine if_neg fun hlisten => ?_
    obtain ⟨l, hl, hne, hport⟩ := portListening_iff.mp hlisten
    exact h0.starting (c, rid) l ⟨⟨hc, hrid⟩, Relay.step_listen hr⟩ (.inr (.inr hl)) hne.symm
      hport.symm
  · rfl

end

/-! ## Runs -/

theorem Sound.init (h : Init s) : s.Sound := by
  obtain ⟨portRange, rfl⟩ := h
  exact ⟨fun c hc => absurd hc (Nat.not_lt_zero c), nofun, .empty fun k hk =>
    absurd hk.1.1 (Nat.not_lt_zero _), .empty fun k hk => absurd hk.1.1 (Nat.not_lt_zero _), rfl⟩

/-- The step makes no relay and announces none. -/
theorem Sound.quiet (h : s.Sound) (ha : Aged s s') (hown : ∀ k, s'.Owned k → s.Owned k)
    (htables : ∀ c < s'.nconns, (s'.conn c).server.TableSound) (hann : s'.announced = s.announced)
    (href : s'.refused = s.refused) : s'.Sound := by
  obtain ⟨hstarting, hregistered⟩ := h.apart ha (fresh_of_owned hown)
  refine ⟨htables, fun k p hp => ?_, hstarting, hregistered, href.trans h.refused⟩
  obtain ⟨hk, hport⟩ := h.announced k p (hann ▸ hp)
  exact ⟨ha.owned k hk, (ha.port k hk).trans hport⟩

theorem Sound.moved {c : Nat} {x : ManagerRun.Event} {m : ManagerRun} (h0 : s.Sound)
    (hc : c < s.nconns) (hk : s.kernelAllows c x = true)
    (hfree : s.bindsFree (.conn c x) = true) (h : (s.conn c).step x = some m) :
    (s.moved c x m).Sound := by
  have ha := moved_aged h
  obtain ⟨hstarting, hregistered⟩ := h0.apart ha (moved_fresh h0 hk hfree h)
  refine ⟨fun d hd => ?_, fun k p hp => ?_, hstarting, hregistered, ?_⟩
  · by_cases hdc : d = c
    · subst hdc
      have hconn : (s.moved d x m).conn d = m := s.setConn_conn d m
      rw [hconn]
      exact ManagerRun.step_tableSound (h0.tables d hc) h
    · have hconn : (s.moved c x m).conn d = s.conn d := setConn_other hdc
      rw [hconn]
      exact h0.tables d hd
  · obtain ⟨hown, hport⟩ := moved_announced h0 hc h hp
    exact ⟨ha.owned k hown, (ha.port k hown).trans hport⟩
  · have hrefused : (s.moved c x m).refused = s.refused ++ s.refusedBy c x := rfl
    rw [hrefused, refusedBy_eq_nil h0 hc h, h0.refused]
    rfl

theorem Sound.connect (h : s.Sound) (hs : step s .connect = some s') : s'.Sound := by
  cases hs
  have hold {c : Nat} {m : ManagerRun} (hc : c < s.nconns) :
      (s.setConn s.nconns m).conn c = s.conn c := setConn_other (Nat.ne_of_lt hc)
  have hcases {c : Nat} (hc : c < s.nconns + 1) (hne : c ≠ s.nconns) : c < s.nconns :=
    Nat.lt_of_le_of_ne (Nat.le_of_lt_succ hc) hne
  refine h.quiet (aged_of_conns (Nat.le_succ _) (fun c hc => ?_) fun ⟨c, rid⟩ hk hr => ?_)
    (fun ⟨c, rid⟩ ⟨hc, hrid⟩ => ?_) (fun c hc => ?_) rfl rfl
  · simp only [hold hc]
    exact .refl _
  · simp only [hold hk.1] at hr
    exact hr
  · by_cases hn : c = s.nconns
    · subst hn
      simp only [setConn_conn] at hrid
      exact absurd hrid (Nat.not_lt_zero _)
    · simp only [hold (hcases hc hn)] at hrid
      exact ⟨hcases hc hn, hrid⟩
  · by_cases hn : c = s.nconns
    · subst hn
      simp only [setConn_conn]
      exact ⟨fun port rid hrid => (nomatch hrid), nofun, nofun⟩
    · simp only [hold (hcases hc hn)]
      exact h.tables c (hcases hc hn)

theorem Sound.collect {c rid : Nat} (h : s.Sound) (hs : step s (.collect c rid) = some s') :
    s'.Sound := by
  simp only [step, Option.ite_none_right_eq_some, Bool.and_eq_true, decide_eq_true_eq,
    Option.some.injEq] at hs
  obtain ⟨⟨hc, -⟩, rfl⟩ := hs
  have haged : Server.Aged (s.conn c).server ((s.conn c).server.setRelay rid
      { (s.conn c).server.relay rid with sck := .closed }) := .setRelay rfl id nofun
  refine h.quiet (aged_setConn rfl rfl haged fun _ _ => id) (fun k hk => ?_) (fun d hd => ?_)
    rfl rfl
  · rcases owned_setConn (c := c) rfl rfl hk with hk | ⟨-, hge, hlt⟩
    · exact hk
    · exact absurd hlt (Nat.not_lt.mpr hge)
  · by_cases hdc : d = c
    · subst hdc
      simp only [setConn_conn]
      refine ⟨fun port i hi => ?_, (h.tables d hc).creating, (h.tables d hc).joining⟩
      obtain ⟨hlt, hport⟩ := (h.tables d hc).key port i hi
      exact ⟨hlt, (haged.port i hlt).trans hport⟩
    · simp only [setConn_other hdc]
      exact h.tables d hd

theorem Sound.shutdown (h : s.Sound) (hs : step s .shutdown = some s') : s'.Sound := by
  cases hs
  refine h.quiet (aged_of_conns (Nat.le_refl _) (fun c _ => ⟨Nat.le_refl _, fun _ _ => rfl,
    fun _ _ => id, fun _ _ => .inl⟩) fun _ _ => id) (fun k => id) (fun c hc => ?_) rfl rfl
  exact ⟨(h.tables c hc).key, (h.tables c hc).creating, (h.tables c hc).joining⟩

theorem step_sound (h : s.Sound) (hfree : s.bindsFree e = true) (hs : step s e = some s') :
    s'.Sound := by
  cases e with
  | connect => exact h.connect hs
  | conn c x =>
    simp only [step, Option.ite_none_right_eq_some, Bool.and_eq_true, decide_eq_true_eq] at hs
    obtain ⟨⟨hc, hk⟩, hs⟩ := hs
    obtain ⟨m, hm, rfl⟩ := Option.map_eq_some_iff.mp hs
    exact h.moved hc hk hfree hm
  | collect c rid => exact h.collect hs
  | shutdown => exact h.shutdown hs

/-- **The announced ports are exclusive and live** in every run in which each new relay is bound to
a port that no relay has which has still to call `listen`, and no relay which is in the table of
another connection. -/
theorem announced_ports (h : Reachable (fun s e => s.bindsFree e = true) s) :
    s.Exclusive ∧ s.Live := by
  have hsound : s.Sound :=
    h.invariant (fun _ => Sound.init) fun _ _ _ hI hfree hs => step_sound hI hfree hs
  exact hsound.properties

/-- The execution of a list of events, with the ports 4000 and 4001 for relays. -/
def run (test : Service → Event → Bool) (es : List Event) : Option Service :=
  let portRange := some (4000, 4001)
  Transition.exec step test { portRange, conn := fun _ => .start portRange } es

theorem Reachable.of_run {P : Service → Event → Prop} {test : Service → Event → Bool}
    (htest : ∀ s e, test s e → P s e) {es : List Event} (h : run test es = some s) :
    Reachable P s :=
  Transition.Reach.exec htest (.init ⟨_, rfl⟩) h

/-- The client of connection `c` has a relay made, with these results of the `bind` calls, and it
is announced. -/
def creates (c : Nat) (results : List BindResult) : List Event :=
  [.conn c (.thread (.select [(.client, .r)])),
    .conn c (.thread (.clientIo ⟨.error .blockingIo, .ok [64, 1, 1]⟩)),
    .conn c (.thread .turn), .conn c (.thread (.recvTurn results)), .conn c (.thread .turn)]

/-- The first relay listens before the second is made. -/
theorem announced_ports_two : ∃ s, run bindsFree ([.connect, .connect] ++
    creates 0 [.bound 4000] ++ [.conn 0 (.relay 0 (.listen (.ok ())))] ++
    creates 1 [.osError (.other 98), .bound 4001]) = some s ∧
      (s.announced (0, 0) = some 4000 ∧ s.announced (1, 0) = some 4001) ∧
        s.Exclusive ∧ s.Live := by
  obtain ⟨s, hs, hports⟩ : ∃ s, run bindsFree ([.connect, .connect] ++
      creates 0 [.bound 4000] ++ [.conn 0 (.relay 0 (.listen (.ok ())))] ++
      creates 1 [.osError (.other 98), .bound 4001]) = some s ∧
        (s.announced (0, 0) = some 4000 ∧ s.announced (1, 0) = some 4001) := ⟨_, rfl, rfl, rfl⟩
  exact ⟨s, hs, hports, announced_ports (.of_run (fun _ _ => id) hs)⟩

/-- Both relays are bound before one of them listens. -/
theorem port_announced_twice :
    (¬ ∀ s, Reachable (fun _ _ => True) s → s.Exclusive) ∧
      ¬ ∀ s, Reachable (fun _ _ => True) s → s.Live := by
  obtain ⟨s, hs, ⟨hn, hr0, hr1⟩, ⟨h0, h1⟩, ha0, ha1, hrefused⟩ : ∃ s,
      run (fun _ _ => true) ([.connect, .connect] ++ creates 0 [.bound 4000] ++
        creates 1 [.bound 4000] ++ [.conn 0 (.relay 0 (.listen (.ok ()))),
          .conn 1 (.relay 0 (.listen (.error (.other 98))))]) = some s ∧
      (s.nconns = 2 ∧ (s.conn 0).server.nrelays = 1 ∧ (s.conn 1).server.nrelays = 1) ∧
      ((s.conn 0).server.Registers 0 ∧ (s.conn 1).server.Registers 0) ∧
      s.announced (0, 0) = some 4000 ∧ s.announced (1, 0) = some 4000 ∧
      s.refused = [(1, 0)] :=
    ⟨_, rfl, ⟨rfl, rfl, rfl⟩, ⟨⟨rfl, List.mem_singleton_self 0⟩, rfl, List.mem_singleton_self 0⟩,
      rfl, rfl, rfl⟩
  have hreach : Reachable (fun _ _ => True) s := .of_run (fun _ _ _ => trivial) hs
  constructor
  · intro h
    have hreg0 : s.Registered (0, 0) := ⟨⟨by simp [hn], by simp [hr0]⟩, h0⟩
    have hreg1 : s.Registered (1, 0) := ⟨⟨by simp [hn], by simp [hr1]⟩, h1⟩
    cases h s hreach (0, 0) (1, 0) 4000 hreg0 hreg1 ha0 ha1
  · intro h
    refine h s hreach (1, 0) 4000 ha1 ?_
    rw [hrefused]
    exact List.mem_singleton_self _

end Service
end PortPort
