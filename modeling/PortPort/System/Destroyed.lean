import PortPort.System.Owners

/-! # What is sent for a relay that has been destroyed

The reply to DESTROY_RELAY goes to `sendq` at once, and the messages that still stand on
`inbound_data` come after it. They are all that comes of the relay. -/

namespace PortPort
open Server (ManagerAction)
open Relay (RelayAction)

namespace Server
variable {s s' : Server}

/-- A step of the thread appends a DESTROY_RELAY frame at the end of `join` only. -/
theorem mgrStep_destroyRelay {a : ManagerAction} (h : s.mgrStep a = some s') :
    (∃ fs, s'.mgr.sendLog = s.mgr.sendLog ++ fs ∧ ∀ f ∈ fs, f.msgType ≠ .destroyRelay) ∨
      ∃ port rid, s.mgr.phase = .joining port rid ∧ a = .turn := by
  have hsame (hl : s'.mgr.sendLog = s.mgr.sendLog) :
      ∃ fs, s'.mgr.sendLog = s.mgr.sendLog ++ fs ∧ ∀ f ∈ fs, f.msgType ≠ .destroyRelay :=
    ⟨[], by rw [hl, List.append_nil], List.forall_mem_nil _⟩
  have herror {f : PortPortMessage} (he : f.msgType = .error) : f.msgType ≠ .destroyRelay :=
    fun ht => nomatch he.symm.trans ht
  cases mgrStep_moves h with
  | clientIo => exact .inl (hsame (s.mgr.handleRelayClient_moved ..).sendLog)
  | takes _ _ _ hmsg =>
    cases hmsg with
    | replies hr hfs => exact .inl ⟨_, hr.sendLog, fun f hf => herror (hfs f hf)⟩
    | _ => exact .inl (hsame rfl)
  | refuses _ _ hr hfs => exact .inl ⟨_, hr.sendLog, fun f hf => herror (hfs f hf)⟩
  | announces _ hr hfs =>
    refine .inl ⟨_, hr.sendLog, fun f hf ht => ?_⟩
    rcases hfs f hf with rfl | he
    · cases ht
    · exact herror he ht
  | destroys hp => exact .inr ⟨_, _, hp, rfl⟩
  | @drains left =>
    have hdrains := s.mgr.inboundTurn_drains left
    generalize s.mgr.inboundTurn left = m at hdrains h hsame ⊢
    cases hdrains with
    | sends hl hi hm =>
      obtain ⟨data, writeEnabled, mask, -, rfl⟩ := Manager.send_sent hm
      refine .inl ⟨_, rfl, fun f hf ht => ?_⟩
      rw [List.mem_singleton.mp hf] at ht
      cases (frameMark_frameOf _).symm.trans (congrArg frameMark ht)
    | _ => exact .inl (hsame rfl)
  | _ => exact .inl (hsame rfl)

end Server

namespace OwnedRun
open ManagerRun (Event setWakeup)

variable {s s' : OwnedRun} {e : Event}

/-! ## Behind the end of a relay -/

theorem Moves.grows (h : Moves s e s') : Server.Grows s.server s'.server := by
  cases h with
  | answers hmgr => exact Server.mgrStep_grows hmgr
  | drains hmgr => exact Server.mgrStep_grows hmgr
  | puts hrid hr hs' =>
    have hg := Server.relayMoved_grows hr
    rw [hs']
    exact ⟨hg.nrelays, hg.port, hg.gone, hg.enqueued⟩
  | rest hr hn he =>
    refine ⟨hn.ge, fun hi => by rw [hr], fun hi => ⟨hn ▸ hi.1, hr ▸ hi.2⟩, fun hq => he ▸ hq⟩

/-- What has happened since the state `s`: the frames about connections are those of the items that
stood on the queue and then those of items put later, none of them by a relay that was gone. -/
structure Since (s t : OwnedRun) (fs : List PortPortMessage)
    (taken later : List (Nat × QueuedRelayMessage)) : Prop where
  grows : Server.Grows s.server t.server
  log : t.log = s.log ++ fs
  queue : s.queue ++ later = taken ++ t.queue
  frames : fs.filter aboutConn = taken.map fun x => Manager.frameOf x.2
  sent : t.sent = s.sent ++ taken
  owner : x ∈ later → x.1 < t.server.nrelays ∧ ¬ s.server.Gone x.1 ∧
    x.2.relayPort = (t.server.relay x.1).identifyingPort ∧ x.2 ∈ t.server.enqueued x.1

theorem Since.refl (s : OwnedRun) : Since s s [] [] [] where
  grows := .refl _
  log := (List.append_nil _).symm
  queue := List.append_nil _
  frames := rfl
  sent := (List.append_nil _).symm
  owner := nofun

/-- The items put later stay the items of relays that were not gone. -/
theorem Since.owner_grows {t t' : OwnedRun} {fs : List PortPortMessage}
    {taken later : List (Nat × QueuedRelayMessage)} (h : Since s t fs taken later)
    (hg : Server.Grows t.server t'.server) {x : Nat × QueuedRelayMessage} (hx : x ∈ later) :
    x.1 < t'.server.nrelays ∧ ¬ s.server.Gone x.1 ∧
      x.2.relayPort = (t'.server.relay x.1).identifyingPort ∧ x.2 ∈ t'.server.enqueued x.1 := by
  obtain ⟨hlt, hgone, hport, hmem⟩ := h.owner hx
  exact ⟨hlt.trans_le hg.nrelays, hgone, hport.trans (hg.port hlt).symm, hg.enqueued hmem⟩

section
variable {t t' : OwnedRun} {fs gs : List PortPortMessage} {p : Int}
  {taken later : List (Nat × QueuedRelayMessage)}

theorem Since.answers (h : Since s t fs taken later) (hg : Server.Grows t.server t'.server)
    (hq : t'.queue = t.queue) (hsent : t'.sent = t.sent) (hlog : t'.log = t.log ++ gs)
    (hgs : ∀ f ∈ gs, frameMark f.msgType = none) : Since s t' (fs ++ gs) taken later where
  grows := h.grows.trans hg
  log := by rw [hlog, h.log, List.append_assoc]
  queue := by rw [h.queue, hq]
  frames := by
    rw [List.filter_append, filter_aboutConn_nil hgs, List.append_nil, h.frames]
  sent := hsent.trans h.sent
  owner := h.owner_grows hg

theorem Since.drains {x : Nat × QueuedRelayMessage} (h : Since s t fs taken later)
    (hg : Server.Grows t.server t'.server) (hq : t.queue = x :: t'.queue)
    (hsent : t'.sent = t.sent ++ [x]) (hlog : t'.log = t.log ++ [Manager.frameOf x.2]) :
    Since s t' (fs ++ [Manager.frameOf x.2]) (taken ++ [x]) later where
  grows := h.grows.trans hg
  log := by rw [hlog, h.log, List.append_assoc]
  queue := by rw [h.queue, hq, List.append_assoc, List.singleton_append]
  frames := by
    rw [List.filter_append, h.frames, List.map_append]
    refine congrArg _ (List.filter_eq_self.mpr fun f hf => ?_)
    rw [List.mem_singleton.mp hf]
    exact aboutConn_frameOf _
  sent := by rw [hsent, h.sent, List.append_assoc]
  owner := h.owner_grows hg

/-- A relay that puts items on the queue was not gone. -/
theorem Since.puts {rid : Nat} {a : RelayAction} {r : Relay}
    {puts : List (Nat × QueuedRelayMessage)} (ht : t.Sound) (h : Since s t fs taken later)
    (hrid : rid < t.server.nrelays)
    (hr : (t.server.relay rid).step t.server.closeService a = some (r, puts))
    (hg : Server.Grows t.server t'.server)
    (he : ∀ x ∈ puts, x.2 ∈ t'.server.enqueued rid)
    (hq : t'.queue = t.queue ++ puts.map fun x => (rid, x.2)) (hsent : t'.sent = t.sent)
    (hlog : t'.log = t.log) :
    Since s t' fs taken (later ++ puts.map fun x => (rid, x.2)) where
  grows := h.grows.trans hg
  log := hlog.trans h.log
  queue := by rw [← List.append_assoc, h.queue, hq, List.append_assoc]
  frames := h.frames
  sent := hsent.trans h.sent
  owner {x} hx := by
    rcases List.mem_append.mp hx with hx | hx
    · exact h.owner_grows hg hx
    · obtain ⟨y, hy, rfl⟩ := List.mem_map.mp hx
      refine ⟨hrid.trans_le hg.nrelays, fun hgone => ?_, ?_, he y hy⟩
      · cases (h.grows.gone hgone).2.step.symm.trans hr
      · rw [hg.port hrid]
        exact (Relay.step_items (ht.fit.inv hrid) hr y hy).relayPort

theorem Since.step (ht : t.Sound) (h : Since s t fs taken later)
    (hs : OwnedRun.step t e = some t') : ∃ fs taken later, Since s t' fs taken later := by
  have hmoves := step_moves ht hs
  have hg := hmoves.grows
  cases hmoves with
  | answers hmgr hi hq hsent hlog hgs => exact ⟨_, _, _, h.answers hg hq hsent hlog hgs⟩
  | drains hmgr hp hi hq hsent hlog => exact ⟨_, _, _, h.drains hg hq hsent hlog⟩
  | puts hrid hr hs' he hq hsent hlog =>
    exact ⟨_, _, _, h.puts ht hrid hr hg he hq hsent hlog⟩
  | rest hr hn he hp hi hq hsent hlog =>
    have hlog : t'.log = t.log ++ [] := by rw [hlog, List.append_nil]
    exact ⟨_, _, _, h.answers hg hq hsent hlog (List.forall_mem_nil _)⟩

/-! ## The next announcement of the port -/

/-- Behind the frames of the items that were queued, each frame about a connection of the port
stands behind an announcement of the port. -/
def Reannounces (p : Int) (queued : Nat) (fs : List PortPortMessage) : Prop :=
  ∀ pre f post, fs = pre ++ f :: post → aboutConn f = true → f.relayPort = p →
    (pre.filter aboutConn).length < queued ∨ ∃ g ∈ pre, Server.Opens p g

/-- Every relay made since has been announced before the frames about its connections, and no item
put since has the port. -/
structure Announces (p : Int) (s t : OwnedRun) (fs : List PortPortMessage) : Prop where
  relays : s.server.nrelays ≤ i → i < t.server.nrelays → t.server.AnnouncedIn fs i
  frames : Reannounces p s.queue.length fs

theorem Announces.append (h : Announces p s t fs)
    (hrelays : ∀ i, s.server.nrelays ≤ i → i < t'.server.nrelays →
      t'.server.AnnouncedIn (fs ++ gs) i)
    (hgs : ∀ f ∈ gs, aboutConn f = true → f.relayPort = p → gs = [f] ∧
      ((fs.filter aboutConn).length < s.queue.length ∨ ∃ g ∈ fs, Server.Opens p g)) :
    Announces p s t' (fs ++ gs) where
  relays {i} hle hlt := hrelays i hle hlt
  frames pre f post he hf hp := by
    rcases List.append_eq_append_iff.mp he with ⟨xs, rfl, hxs⟩ | ⟨xs, rfl, hxs⟩
    · obtain ⟨hone, hcond⟩ := hgs f (hxs ▸ List.mem_append_right _ List.mem_cons_self) hf hp
      obtain rfl : xs = [] := by
        rw [hone] at hxs
        cases xs with
        | nil => rfl
        | cons y ys => simp at hxs
      rw [List.append_nil]
      exact hcond
    · cases xs with
      | nil =>
        rw [List.nil_append] at hxs
        obtain ⟨-, hcond⟩ := hgs f (hxs ▸ List.mem_cons_self) hf hp
        rw [List.append_nil] at hcond
        exact hcond
      | cons x xs =>
        obtain ⟨rfl, -⟩ := List.cons.inj hxs
        exact h.frames pre f xs rfl hf hp

/-- An item that is taken when those of before are gone has been put since. -/
theorem Since.mem_later {x : Nat × QueuedRelayMessage} {queue : List (Nat × QueuedRelayMessage)}
    (h : Since s t fs taken later) (hq : t.queue = x :: queue)
    (hle : s.queue.length ≤ taken.length) : x ∈ later := by
  have hdrop := congrArg (List.drop s.queue.length) h.queue
  rw [List.drop_left, List.drop_append_of_le_length hle, hq] at hdrop
  rw [hdrop]
  exact List.mem_append_right _ List.mem_cons_self

theorem Announces.drained {x : Nat × QueuedRelayMessage} {left : Nat} (h : Announces p s t fs)
    (hsince : Since s t fs taken later)
    (hgone : ∀ i < s.server.nrelays, (s.server.relay i).identifyingPort = p → s.server.Gone i)
    (hp : t.server.mgr.phase = .inboundLoop left) (hx : x ∈ later) (hxp : x.2.relayPort = p) :
    ∃ g ∈ fs, Server.Opens p g := by
  obtain ⟨hlt, hnot, hport, hmem⟩ := hsince.owner hx
  have hnew : s.server.nrelays ≤ x.1 := by
    refine Nat.le_of_not_lt fun hold => hnot (hgone x.1 hold ?_)
    rw [← hsince.grows.port hold, ← hport, hxp]
  rcases h.relays hnew hlt with ⟨g, hg, ho⟩ | hc | hm
  · exact ⟨g, hg, by rwa [← hport, hxp] at ho⟩
  · cases hp.symm.trans hc
  · rw [hm.2] at hmem
    cases hmem

theorem Announces.relay {rid i : Nat} {a : RelayAction} {r : Relay} {w : Bool}
    {puts : List (Nat × QueuedRelayMessage)} (ht : t.Sound) (h : t.server.AnnouncedIn fs i)
    (hi : i < t.server.nrelays) (hrid : rid < t.server.nrelays)
    (hr : (t.server.relay rid).step t.server.closeService a = some (r, puts))
    (hs' : t'.server = setWakeup (t.server.relayMoved rid r puts) w) :
    t'.server.AnnouncedIn fs i := by
  have hport := (Server.relayMoved_grows hr).port hi
  rcases h with ⟨f, hf, ho⟩ | hc | hm
  · refine .inl ⟨f, hf, ?_⟩
    rw [hs']
    exact hport ▸ ho
  · refine .inr (.inl ?_)
    rw [hs']
    exact hc
  · -- a relay that has closed takes no step
    have hne : i ≠ rid := by
      rintro rfl
      cases (Relay.step_closed (ht.fit.staged hi) hm.1).symm.trans hr
    have hrelay : (t.server.relayMoved rid r puts).relay i = t.server.relay i :=
      Server.relayMoved_other hne
    have henq : (t.server.relayMoved rid r puts).enqueued i = t.server.enqueued i :=
      Server.enqueued_other hne
    refine .inr (.inr ?_)
    rw [hs']
    exact ⟨(congrArg Relay.sck hrelay).trans hm.1, henq.trans hm.2⟩

theorem Announces.step (ht : t.Sound) (h : Announces p s t fs) (hsince : Since s t fs taken later)
    (hgone : ∀ i < s.server.nrelays, (s.server.relay i).identifyingPort = p → s.server.Gone i)
    (ha : t.run.AsksOpen e) (hs : OwnedRun.step t e = some t') :
    ∃ fs taken later, Since s t' fs taken later ∧ Announces p s t' fs := by
  have hmoves := step_moves ht hs
  have hg := hmoves.grows
  have hmgr {a : ManagerAction} {gs : List PortPortMessage} (he : e = .thread a)
      (hmgr : t.server.mgrStep a = some t'.server) (hlog : t'.log = t.log ++ gs) (i : Nat)
      (hle : s.server.nrelays ≤ i) (hlt : i < t'.server.nrelays) :
      t'.server.AnnouncedIn (fs ++ gs) i :=
    Server.mgrStep_announcedIn (fun hlt => h.relays hle hlt) (ha a he) ht.fit.port hlog hmgr hlt
  cases hmoves with
  | answers hstep hi hq hsent hlog hgs =>
    refine ⟨_, _, _, hsince.answers hg hq hsent hlog hgs, h.append (hmgr rfl hstep hlog) ?_⟩
    intro f hf hconn
    rw [aboutConn, hgs f hf] at hconn
    cases hconn
  | @drains a _ x _ hstep hp hi hq hsent hlog =>
    refine ⟨_, _, _, hsince.drains hg hq hsent hlog, h.append (hmgr rfl hstep hlog) ?_⟩
    intro f hf _ hport
    obtain rfl := List.mem_singleton.mp hf
    refine ⟨rfl, ?_⟩
    rw [hsince.frames, List.length_map]
    refine (Nat.lt_or_ge _ _).imp_right fun hle => ?_
    exact h.drained hsince hgone hp (hsince.mem_later hq hle) ((frameOf_fields x.2).1 ▸ hport)
  | puts hrid hr hs' he hq hsent hlog =>
    have hn : t'.server.nrelays = t.server.nrelays := by
      rw [hs']
      rfl
    refine ⟨_, _, _, hsince.puts ht hrid hr hg he hq hsent hlog, fun hle hlt => ?_, h.frames⟩
    rw [hn] at hlt
    exact Announces.relay ht (h.relays hle hlt) hlt hrid hr hs'
  | rest hr hn he hp hi hq hsent hlog =>
    have hlog : t'.log = t.log ++ [] := by rw [hlog, List.append_nil]
    refine ⟨_, _, _, hsince.answers hg hq hsent hlog (List.forall_mem_nil _),
      h.append (fun i hle hlt => ?_) (List.forall_mem_nil _)⟩
    have hin := h.relays hle (hn ▸ hlt)
    unfold Server.AnnouncedIn Server.Mute at hin ⊢
    rw [hr, he, hp, List.append_nil]
    exact hin

end

/-! ## Runs -/

theorem Sound.steps {P : OwnedRun → Event → Prop} {t : OwnedRun} (h : s.Sound) (ht : Steps P s t) :
    t.Sound ∧ ∃ fs taken later, Since s t fs taken later := by
  refine ht.invariant (J := fun t => t.Sound ∧ ∃ fs taken later, Since s t fs taken later) ?_
    ⟨h, _, _, _, .refl s⟩
  rintro t e t' ⟨ht, fs, taken, later, hsince⟩ - hs
  exact ⟨ht.step hs, hsince.step ht hs⟩

theorem Sound.announces {p : Int} {t : OwnedRun} (h : s.Sound)
    (hgone : ∀ i < s.server.nrelays, (s.server.relay i).identifyingPort = p → s.server.Gone i)
    (ht : Steps (fun t e => t.run.AsksOpen e) s t) :
    ∃ fs taken later, Since s t fs taken later ∧ Announces p s t fs := by
  have hinv : t.Sound ∧ ∃ fs taken later, Since s t fs taken later ∧ Announces p s t fs := by
    refine ht.invariant
      (J := fun t => t.Sound ∧ ∃ fs taken later, Since s t fs taken later ∧ Announces p s t fs) ?_
      ⟨h, [], [], [], .refl s, ?_⟩
    · rintro t e t' ⟨ht, fs, taken, later, hsince, ha⟩ hasks hs
      exact ⟨ht.step hs, ha.step ht hsince hgone hasks hs⟩
    · exact ⟨fun hle hlt => absurd hlt (Nat.not_lt_of_le hle), fun pre f post he => by
        cases pre <;> cases he⟩
  exact hinv.2

theorem Reachable.table {P : OwnedRun → Event → Prop} (h : Reachable P s) :
    s.server.TableSound := by
  refine h.invariant (J := fun s => s.server.TableSound) ?_ fun s e s' hI _ hs => ?_
  · rintro s ⟨⟨portRange, hrun⟩, -⟩
    rw [server, hrun]
    exact ManagerRun.start_tableSound portRange
  · obtain ⟨run, hrun, rfl⟩ := Option.map_eq_some_iff.mp hs
    exact ManagerRun.step_tableSound hI hrun

/-- The reply to DESTROY_RELAY: the relay is gone. -/
theorem destroyed_reply {t : OwnedRun} {p : Int} {rid : Nat} (h : s.Sound)
    (htable : s.server.TableSound) (hp : s.server.mgr.phase = .joining p rid)
    (hs : OwnedRun.step s (.thread .turn) = some t) :
    t.log = s.log ++ [{ msgType := .destroyRelay, relayPort := p }] ∧ t.server.Gone rid := by
  obtain ⟨run, hrun, rfl⟩ := Option.map_eq_some_iff.mp hs
  obtain ⟨server', hserver, rfl⟩ := Option.map_eq_some_iff.mp hrun
  have hphase : s.run.server.mgr.phase = .joining p rid := hp
  simp only [Server.mgrStep, hphase, Option.ite_none_right_eq_some, Option.some.injEq] at hserver
  obtain ⟨hjoined, rfl⟩ := hserver
  obtain ⟨hrid, hport⟩ := htable.key p rid (htable.joining p rid hp)
  have hfit := h.fit.port hrid
  rw [hport] at hfit
  let s₁ := s.server.withMgr { s.server.mgr with relays := s.server.mgr.relays.erase p }
  have hreplied := s₁.reply_replied { msgType := .destroyRelay, relayPort := p }
  have hwell : WellFormed { msgType := .destroyRelay, relayPort := p } := ⟨rfl, hfit, rfl, by simp⟩
  have hsends := s₁.reply_sends hwell
  exact ⟨hsends, hreplied.nrelays.symm ▸ hrid, hreplied.relay ▸ Server.joined_iff.mp hjoined⟩

/-- A reply to DESTROY_RELAY comes of the end of `join`. -/
theorem destroyed_joined {t : OwnedRun} {p : Int} (h : s.Sound) (htable : s.server.TableSound)
    (hs : OwnedRun.step s e = some t)
    (hlog : t.log = s.log ++ [{ msgType := .destroyRelay, relayPort := p }]) :
    ∃ rid, s.server.mgr.phase = .joining p rid ∧ e = .thread .turn := by
  have hnone {fs : List PortPortMessage} (hfs : t.log = s.log ++ fs)
      (hno : ∀ f ∈ fs, f.msgType ≠ .destroyRelay) : False := by
    have hone := List.append_cancel_left (hlog.symm.trans hfs)
    exact hno _ (hone ▸ List.mem_singleton_self _) rfl
  have hsame : t.log ≠ s.log := fun hfs =>
    hnone (hfs.trans (List.append_nil _).symm) (List.forall_mem_nil _)
  have hthread {a : ManagerAction} (he : e = .thread a)
      (hmgr : s.server.mgrStep a = some t.server) :
      ∃ rid, s.server.mgr.phase = .joining p rid ∧ e = .thread .turn := by
    rcases Server.mgrStep_destroyRelay hmgr with ⟨fs, hfs, hno⟩ | ⟨port, rid, hp, rfl⟩
    · exact (hnone hfs hno).elim
    · obtain ⟨hsent, -⟩ := destroyed_reply h htable hp (he ▸ hs)
      cases List.append_cancel_left (hlog.symm.trans hsent)
      exact ⟨rid, hp, he⟩
  cases step_moves h hs with
  | answers hmgr => exact hthread rfl hmgr
  | drains hmgr => exact hthread rfl hmgr
  | puts _ _ _ _ _ _ hfs => exact absurd hfs hsame
  | rest _ _ _ _ _ _ _ hfs => exact absurd hfs hsame

/-- **What is sent for a destroyed relay** behind the reply is what stood on `inbound_data`: the
frames about connections are those of the items that stood there, in their order, and then those
of items put later, none of them by the relay. If every other relay with its port has ended, none of
the later items with the port is sent before the port has been announced again. -/
theorem destroyed_relay_drains {t₀ : OwnedRun} {p : Int} (h : Reachable (fun _ _ => True) s)
    (hs : step s e = some t₀)
    (hlog : t₀.log = s.log ++ [{ msgType := .destroyRelay, relayPort := p }]) :
    ∃ rid, s.server.mgr.phase = .joining p rid ∧
    (∀ t, Steps (fun _ _ => True) t₀ t → ∃ fs taken later, Since t₀ t fs taken later ∧
      ∀ x ∈ later, x.1 ≠ rid) ∧
    ((∀ i < t₀.server.nrelays, (t₀.server.relay i).identifyingPort = p → t₀.server.Gone i) →
      ∀ t, Steps (fun t e => t.run.AsksOpen e) t₀ t → ∃ fs taken later,
        Since t₀ t fs taken later ∧ Reannounces p t₀.queue.length fs) := by
  obtain ⟨rid, hp, rfl⟩ := destroyed_joined h.sound h.table hs hlog
  obtain ⟨-, hgone⟩ := destroyed_reply h.sound h.table hp hs
  have hsound : t₀.Sound := h.sound.step hs
  refine ⟨rid, hp, fun t ht => ?_, fun hothers t ht => ?_⟩
  · obtain ⟨-, fs, taken, later, hsince⟩ := hsound.steps ht
    exact ⟨fs, taken, later, hsince, fun x hx he => (hsince.owner hx).2.1 (he ▸ hgone)⟩
  · obtain ⟨fs, taken, later, hsince, ha⟩ := hsound.announces hothers ht
    exact ⟨fs, taken, later, hsince, ha.frames⟩

/-- The execution of a list of events from the start. -/
def run? (es : List Event) : Option OwnedRun :=
  Transition.exec step (fun _ _ => true) { run := ManagerRun.start none } es

theorem Reachable.of_run? {es : List Event} (h : run? es = some s) :
    Reachable (fun _ _ => True) s :=
  Transition.Reach.exec (fun _ _ _ => trivial) (.init ⟨⟨none, rfl⟩, rfl, rfl⟩) h

/-- A frame of the connection of the relay on port 4000. -/
def frame4000 (kind : RelayMessageTypes) : PortPortMessage :=
  Manager.frameOf ⟨kind, System.Run.peer.1, System.Run.peer.2, [], 4000⟩

def opened4000 : PortPortMessage := { msgType := .openRelay, relayPort := 4000 }

def destroyed4000 : PortPortMessage := { msgType := .destroyRelay, relayPort := 4000 }

/-- A relay accepts a connection and is destroyed; the thread waits in `join` until it ends. -/
def joinedOne : List Event :=
  ManagerRun.created ++ [.thread .turn, .thread (.recvTurn []), .thread .turn,
    .relay 0 (.listen (.ok ())), .relay 0 (.select [(.listening, .r)]),
    .relay 0 (.accept (.ok System.Run.peer)), .thread (.select [(.client, .r)]),
    .thread (.clientIo { send := .ok 0, recv := .ok (encode destroyed4000) }), .thread .turn,
    .thread (.recvTurn [])] ++ List.replicate 5 (.relay 0 .turn)

/-- What is looked at before the end of `join`, behind the reply and later. -/
structure Seen where
  before : List PortPortMessage
  phase : ManagerPhase
  replied : List PortPortMessage
  queued : Nat
  nrelays : Nat
  first : RelayPhase
  later : List PortPortMessage
  deriving DecidableEq

def seen (s t₀ t : OwnedRun) : Seen where
  before := s.log
  phase := s.server.mgr.phase
  replied := t₀.log
  queued := t₀.queue.length
  nrelays := t₀.server.nrelays
  first := (t₀.server.relay 0).phase
  later := t.log

theorem exists_of_run (test : OwnedRun → Event → Bool) (es later : List Event) {x : Seen}
    (h : ((run? es).bind fun s => (step s (.thread .turn)).bind fun t₀ =>
      (Transition.exec step test t₀ later).map fun t => seen s t₀ t) = some x) :
    ∃ s t₀ t, Reachable (fun _ _ => True) s ∧ step s (.thread .turn) = some t₀ ∧
      Transition.exec step test t₀ later = some t ∧ seen s t₀ t = x := by
  obtain ⟨s, hs, h⟩ := Option.bind_eq_some_iff.mp h
  obtain ⟨t₀, ht₀, h⟩ := Option.bind_eq_some_iff.mp h
  obtain ⟨t, ht, h⟩ := Option.map_eq_some_iff.mp h
  exact ⟨s, t₀, t, .of_run? hs, ht₀, ht, h⟩

def asksOpen (t : OwnedRun) (e : Event) : Bool := ManagerRun.asksOpen t.run e

/-- The two frames of the connection come behind the reply. -/
def drainedBoth : List Event := [.thread (.recvTurn []), .thread .turn, .thread .turn]

theorem drainedBoth_run : ∃ s t₀ t : OwnedRun, Reachable (fun _ _ => True) s ∧
    step s (.thread .turn) = some t₀ ∧ Transition.exec step asksOpen t₀ drainedBoth = some t ∧
    seen s t₀ t = {
      before := [opened4000], phase := .joining 4000 0
      replied := [opened4000, destroyed4000], queued := 2, nrelays := 1, first := .closed
      later := [opened4000, destroyed4000, frame4000 .newConnection,
        frame4000 .closeConnection] } := by
  apply exists_of_run asksOpen joinedOne
  decide +kernel

theorem destroyed_relay_drains_one : ∃ t₀ t : OwnedRun,
    t.log = t₀.log ++ [frame4000 .newConnection, frame4000 .closeConnection] ∧
    (∃ fs taken later, Since t₀ t fs taken later ∧ ∀ x ∈ later, x.1 ≠ 0) ∧
    ∃ fs taken later, Since t₀ t fs taken later ∧ Reannounces 4000 t₀.queue.length fs := by
  obtain ⟨s, t₀, t, hs, ht₀, ht, hseen⟩ := drainedBoth_run
  simp only [seen, Seen.mk.injEq] at hseen
  obtain ⟨hlog, hp, hlog₀, -, hn, hclosed, hlog'⟩ := hseen
  have hreply : t₀.log = s.log ++ [destroyed4000] := by
    rw [hlog, hlog₀]
    rfl
  obtain ⟨rid, hrid, hdrains, hannounced⟩ := destroyed_relay_drains hs ht₀ hreply
  cases hp.symm.trans hrid
  refine ⟨t₀, t, ?_, hdrains t (.exec (fun _ _ _ => trivial) ht), hannounced ?_ t ?_⟩
  · rw [hlog', hlog₀]
    rfl
  · intro i hi _
    obtain rfl : i = 0 := by omega
    exact ⟨hi, .inl hclosed⟩
  · exact .exec (fun _ _ => ManagerRun.asksOpen_of_test) ht

/-- Behind the reply to DESTROY_RELAY, none of the relay's frames is appended, and none with its
port before the port has been announced again. -/
def Silent (p : Int) (rid : Nat) (t₀ t : OwnedRun) : Prop :=
  (∀ pre f post, t.log = t₀.log ++ pre ++ f :: post → aboutConn f = true → f.relayPort = p →
    ∃ g ∈ pre, Server.Opens p g) ∧
  ∀ x ∈ t.sent.drop t₀.sent.length, x.1 ≠ rid

theorem frames_behind_reply : ¬ ∀ (s t₀ t : OwnedRun) (e : Event) (p : Int) (rid : Nat),
    Reachable (fun _ _ => True) s → step s e = some t₀ →
    t₀.log = s.log ++ [{ msgType := .destroyRelay, relayPort := p }] →
    s.server.mgr.phase = .joining p rid → Steps (fun _ _ => True) t₀ t → Silent p rid t₀ t := by
  intro h
  obtain ⟨s, t₀, t, hs, ht₀, ht, hseen⟩ := drainedBoth_run
  simp only [seen, Seen.mk.injEq] at hseen
  obtain ⟨hlog, hp, hlog₀, -, -, -, hlog'⟩ := hseen
  obtain ⟨hframes, -⟩ := h s t₀ t _ 4000 0 hs ht₀ (by rw [hlog, hlog₀]; rfl) hp
    (.exec (fun _ _ _ => trivial) ht)
  obtain ⟨g, hg, -⟩ := hframes [] (frame4000 .newConnection) [frame4000 .closeConnection]
    (by rw [hlog', hlog₀]; rfl) rfl rfl
  cases hg

/-! ## The two provisos -/

/-- Two relays are made on one port before one of them listens, and the second is destroyed. -/
def joinedOther : List Event :=
  let announced : List Event := [.thread .turn, .thread (.recvTurn []), .thread .turn]
  ManagerRun.created ++ announced ++ ManagerRun.created ++ announced ++
    [.thread (.select [(.client, .r)]),
      .thread (.clientIo { send := .ok 0, recv := .ok (encode destroyed4000) }), .thread .turn,
      .thread (.recvTurn []), .relay 1 (.listen (.ok ())), .relay 1 .turn, .relay 1 .turn]

/-- The relay that is left listens on the port and accepts a connection. -/
def otherAccepts : List Event :=
  [.relay 0 (.listen (.ok ())), .relay 0 (.select [(.listening, .r)]),
    .relay 0 (.accept (.ok System.Run.peer)), .thread (.recvTurn []), .thread .turn]

/-- Another relay with the port sends without an announcement. -/
theorem other_relay_sends : ¬ ∀ (s t₀ t : OwnedRun) (e : Event) (p : Int)
    (fs : List PortPortMessage), Reachable (fun _ _ => True) s → step s e = some t₀ →
    t₀.log = s.log ++ [{ msgType := .destroyRelay, relayPort := p }] →
    Steps (fun t e => t.run.AsksOpen e) t₀ t → t.log = t₀.log ++ fs →
    Reannounces p t₀.queue.length fs := by
  intro h
  obtain ⟨s, t₀, t, hs, ht₀, ht, hseen⟩ : ∃ s t₀ t : OwnedRun, Reachable (fun _ _ => True) s ∧
      step s (.thread .turn) = some t₀ ∧ Transition.exec step asksOpen t₀ otherAccepts = some t ∧
      seen s t₀ t = {
        before := [opened4000, opened4000], phase := .joining 4000 1
        replied := [opened4000, opened4000, destroyed4000], queued := 0, nrelays := 2
        first := .start
        later := [opened4000, opened4000, destroyed4000, frame4000 .newConnection] } := by
    apply exists_of_run asksOpen joinedOther
    decide +kernel
  simp only [seen, Seen.mk.injEq] at hseen
  obtain ⟨hlog, -, hlog₀, hq, -, -, hlog'⟩ := hseen
  have hsends := h s t₀ t _ 4000 [frame4000 .newConnection] hs ht₀ (by rw [hlog, hlog₀]; rfl)
    (.exec (fun _ _ => ManagerRun.asksOpen_of_test) ht) (by rw [hlog', hlog₀]; rfl)
  rw [hq] at hsends
  rcases hsends [] _ [] rfl rfl rfl with hlt | ⟨g, hg, -⟩
  · cases hlt
  · cases hg

/-- A relay is made on the port again, and it has closed when it is asked for the port. -/
def madeAgain : List Event :=
  drainedBoth ++ [.thread .turn] ++ ManagerRun.created ++ [.relay 1 (.listen (.ok ())),
    .relay 1 (.select [(.listening, .r)]), .relay 1 (.accept (.ok System.Run.peer)), .shutdown] ++
    List.replicate 5 (.relay 1 .turn) ++ [.thread .turn, .thread .turn]

/-- A relay that has closed before it is announced sends without an announcement. -/
theorem unannounced_relay_sends : ¬ ∀ (s t₀ t : OwnedRun) (e : Event) (p : Int)
    (fs : List PortPortMessage), Reachable (fun _ _ => True) s → step s e = some t₀ →
    t₀.log = s.log ++ [{ msgType := .destroyRelay, relayPort := p }] →
    (∀ i < t₀.server.nrelays, (t₀.server.relay i).identifyingPort = p → t₀.server.Gone i) →
    Steps (fun _ _ => True) t₀ t → t.log = t₀.log ++ fs → Reannounces p t₀.queue.length fs := by
  intro h
  obtain ⟨s, t₀, t, hs, ht₀, ht, hseen⟩ : ∃ s t₀ t : OwnedRun, Reachable (fun _ _ => True) s ∧
      step s (.thread .turn) = some t₀ ∧
      Transition.exec step (fun _ _ => true) t₀ madeAgain = some t ∧
      seen s t₀ t = {
        before := [opened4000], phase := .joining 4000 0
        replied := [opened4000, destroyed4000], queued := 2, nrelays := 1, first := .closed
        later := [opened4000, destroyed4000, frame4000 .newConnection,
          frame4000 .closeConnection, frame4000 .newConnection] } := by
    apply exists_of_run (fun _ _ => true) joinedOne
    decide +kernel
  simp only [seen, Seen.mk.injEq] at hseen
  obtain ⟨hlog, -, hlog₀, hq, hn, hclosed, hlog'⟩ := hseen
  have hgone (i : Nat) (hi : i < t₀.server.nrelays)
      (_ : (t₀.server.relay i).identifyingPort = 4000) : t₀.server.Gone i := by
    obtain rfl : i = 0 := by omega
    exact ⟨hi, .inl hclosed⟩
  have hsends := h s t₀ t _ 4000
    [frame4000 .newConnection, frame4000 .closeConnection, frame4000 .newConnection] hs ht₀
    (by rw [hlog, hlog₀]; rfl) hgone (.exec (fun _ _ _ => trivial) ht) (by rw [hlog', hlog₀]; rfl)
  rw [hq] at hsends
  rcases hsends [frame4000 .newConnection, frame4000 .closeConnection] _ [] rfl rfl rfl with
    hlt | ⟨g, hg, hopens, -⟩
  · exact absurd hlt (Nat.lt_irrefl _)
  · rcases List.mem_pair.mp hg with rfl | rfl <;> cases hopens

end OwnedRun
end PortPort
