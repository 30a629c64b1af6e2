import PortPort.Server.RecvDrain

/-! # What a pass of the receive loop handles

Decoding and handling share one `try`, so an exception of `process_msg` leaves the loop with the
frame behind it still in `recvq`. -/

namespace PortPort
open PortPortMessage BigEndian
open Relay (BindResult)

/-! ## Frames on the wire -/

/-- The frame of a message of version 1. Behind the header of AUTH stands the length of the token
in bytes. -/
def wireFrame (m : PortPortMessage) : Bytes :=
  if m.msgType = .auth then
    headerBytes .auth ++ (toBE 2 (encodeUtf8 m.auth).length ++ encodeUtf8 m.auth)
  else encode m

/-- A message with a frame, and with defaults in the fields that its layout does not carry. -/
structure Framed (m : PortPortMessage) : Prop where
  version : m.version = 1
  carried : m.carried = m
  fits : m.msgType ≠ .auth → m.Fits
  token : m.msgType = .auth → (encodeUtf8 m.auth).length < 256 ^ 2

theorem Framed.wellFormed {m : PortPortMessage} (h : Framed m) (ht : m.msgType ≠ .auth) :
    WellFormed m := ⟨h.version, h.fits ht, h.carried, ht⟩

theorem Framed.grabMsg {m : PortPortMessage} (h : Framed m) (x : Bytes) :
    grabMsg (wireFrame m ++ x) = .ok (m, x) := by
  unfold wireFrame
  by_cases ht : m.msgType = .auth
  · have hm : m = { msgType := .auth, auth := m.auth } := by
      have hc := h.carried
      have hv := h.version
      simp only [PortPortMessage.carried, ht, hv] at hc
      exact hc.symm
    have hdec := deserialize_token (encodeUtf8 m.auth ++ x) (h.token ht)
    rw [List.take_left, List.drop_left, decodeUtf8_iff.mpr rfl] at hdec
    rw [if_pos ht, List.append_assoc, List.append_assoc]
    exact hdec.trans (congrArg (fun m => Except.ok (m, x)) hm.symm)
  · rw [if_neg ht]
    exact grabMsg?_eq_some.mp (grabMsg?_encode x (h.wellFormed ht))

/-- A frame that is not AUTH, without its last bytes. -/
def Cut (p : Bytes) : Prop := ∃ m, WellFormed m ∧ p <+: encode m ∧ p ≠ encode m

theorem Cut.grabMsg {p : Bytes} (h : Cut p) : ∃ e, grabMsg p = .error e ∧ e.violation = false := by
  obtain ⟨m, hm, hp, hne⟩ := h
  cases hgrab : PortPort.grabMsg p with
  | error e => exact ⟨e, rfl, deserialize_ordinary (not_badVersion_of_part hp) e hgrab⟩
  | ok x => exact absurd hgrab (deserialize_cut hm.version hm.notAuth hm.serialize hp hne x)

/-! ## Handling one frame -/

/-- The `bind` calls raise nothing that `process_msg` does not catch: in a range, no OverflowError
before a call that returns; without a range, nothing. -/
def BindsCaught : Option (Int × Int) → List BindResult → Prop
  | none, results => ∃ p, results.head? = some (.bound p)
  | some (lo, hi), results => ∀ i < (Relay.portsOf lo hi).length, results[i]? = some .overflow →
      ∃ j < i, ∃ p, results[j]? = some (.bound p)

theorem bindLoop_caught {ports : List Int} {results : List BindResult}
    {x : Except PyError (Option (Int × Int))} (h : Relay.bindLoop ports results = some x) :
    (∀ i < ports.length, results[i]? = some .overflow → ∃ j < i, ∃ p,
      results[j]? = some (.bound p)) ↔ ∀ e, x ≠ .error e := by
  induction ports generalizing results with
  | nil =>
    cases h
    exact iff_of_true (by simp) (by simp)
  | cons port ports ih =>
    cases results with
    | nil => cases h
    | cons result results =>
      cases result with
      | bound p =>
        simp only [Relay.bindLoop, Option.ite_none_right_eq_some, Option.some.injEq] at h
        obtain ⟨-, rfl⟩ := h
        refine iff_of_true (fun i _ hi => ?_) (by simp)
        cases i with
        | zero => cases hi
        | succ i => exact ⟨0, Nat.succ_pos i, p, rfl⟩
      | osError e =>
        rw [← ih h]
        constructor
        · intro hall i hi hover
          obtain ⟨j, hj, p, hp⟩ := hall (i + 1) (Nat.succ_lt_succ hi) hover
          cases j with
          | zero => cases hp
          | succ j => exact ⟨j, by omega, p, hp⟩
        · intro hall i hi hover
          cases i with
          | zero => cases hover
          | succ i =>
            obtain ⟨j, hj, p, hp⟩ := hall i (Nat.lt_of_succ_lt_succ hi) hover
            exact ⟨j + 1, by omega, p, hp⟩
      | overflow =>
        cases h
        refine iff_of_false (fun hall => ?_) fun hne => hne _ rfl
        obtain ⟨j, hj, -⟩ := hall 0 (Nat.succ_pos _) rfl
        omega

theorem bindLoop_overflow {ports : List Int} {results : List BindResult} {e : PyError}
    (h : Relay.bindLoop ports results = some (.error e)) : e = .overflowError := by
  induction ports generalizing results with
  | nil => cases h
  | cons port ports ih =>
    match results, h with
    | .bound p :: results, h =>
      simp only [Relay.bindLoop] at h
      split at h <;> cases h
    | .osError _ :: results, h => exact ih h
    | .overflow :: results, h =>
      cases h
      rfl

theorem Relay.init_breaks {portRange : Option (Int × Int)} {results : List BindResult}
    {e : PyError} (h : Relay.init portRange results = some (.error e)) :
    Server.loops e = false := by
  unfold Relay.init at h
  split at h
  · split at h
    · cases h
    · rename_i hloop
      cases h
      rw [bindLoop_overflow hloop]
      rfl
    · split at h
      · split at h <;> cases h
        rfl
      · cases h
        rfl
  · split at h <;> cases h <;> rfl

theorem init_caught {portRange : Option (Int × Int)} {results : List BindResult}
    {x : Except PyError Relay} (h : Relay.init portRange results = some x) :
    BindsCaught portRange results ↔ ∀ e, x = .error e → ∃ text, e = .relayNoAvailablePort text := by
  unfold Relay.init at h
  split at h
  · rename_i lo hi
    split at h
    · cases h
    · rename_i e hloop
      cases h
      refine iff_of_false (fun hc => (bindLoop_caught hloop).mp hc e rfl) fun hall => ?_
      obtain ⟨_, hx⟩ := hall e rfl
      cases hx.symm.trans (bindLoop_overflow hloop)
    · rename_i bound hloop
      refine iff_of_true ((bindLoop_caught hloop).mpr nofun) ?_
      rintro e rfl
      split at h
      · split at h <;> cases h
        exact ⟨_, rfl⟩
      · cases h
        exact ⟨_, rfl⟩
  · split at h <;> cases h
    · exact iff_of_true ⟨_, rfl⟩ nofun
    · refine iff_of_false (fun ⟨p, hp⟩ => by cases hp) fun hall => ?_
      obtain ⟨_, hx⟩ := hall _ rfl
      cases hx
    · refine iff_of_false (fun ⟨p, hp⟩ => by cases hp) fun hall => ?_
      obtain ⟨_, hx⟩ := hall _ rfl
      cases hx

namespace Server
variable {s s' : Server} {msg : PortPortMessage} {results : List BindResult}

/-- `process_msg` raises nothing up to its end, or to the point where other threads run: a
CLOSE_CONNECTION names a registered relay, and the relay of a CREATE_RELAY can be made. -/
def Handled (s : Server) (msg : PortPortMessage) (results : List BindResult) : Prop :=
  (msg.msgType = .closeConnection → (s.mgr.relays.lookup msg.relayPort).isSome = true) ∧
    (msg.msgType = .createRelay → BindsCaught s.portRange results)

theorem Handled.of_other (h1 : msg.msgType ≠ .closeConnection) (h2 : msg.msgType ≠ .createRelay) :
    s.Handled msg results := ⟨fun h => absurd h h1, fun h => absurd h h2⟩

/-- The port that an announcement or an acknowledgement under way is to carry is a port. -/
structure PortsFit (s : Server) : Prop where
  creating : ∀ rid, s.mgr.phase = .creating rid →
    0 ≤ (s.relay rid).identifyingPort ∧ (s.relay rid).identifyingPort < 65536
  joining : ∀ port rid, s.mgr.phase = .joining port rid → 0 ≤ port ∧ port < 65536

theorem PortsFit.of_phase (h1 : ∀ rid, s.mgr.phase ≠ .creating rid)
    (h2 : ∀ port rid, s.mgr.phase ≠ .joining port rid) : s.PortsFit :=
  ⟨fun rid h => absurd h (h1 rid), fun port rid h => absurd h (h2 port rid)⟩

theorem reply_goes (s : Server) (h : WellFormed msg) : (s.reply msg).mgr.phase = .recvLoop := by
  obtain ⟨m, hm, -⟩ := s.mgr.send_wellFormed h
  unfold reply
  rw [hm]
  rfl

theorem announce_goes {rid : Nat} (hsck : (s.relay rid).sck ≠ .closed)
    (hport : 0 ≤ (s.relay rid).identifyingPort ∧ (s.relay rid).identifyingPort < 65536) :
    (s.announce rid).mgr.phase = .recvLoop := by
  unfold announce Relay.getPort
  rw [if_neg hsck]
  exact s.reply_goes ⟨rfl, hport, rfl, nofun⟩

theorem destroyed_goes {port : Int} (hport : 0 ≤ port ∧ port < 65536) :
    (s.destroyed port).mgr.phase = .recvLoop :=
  reply_goes _ ⟨rfl, hport, rfl, nofun⟩

/-- The loop goes on behind a frame exactly if it is handled. -/
theorem processMsg_handled (hm : Framed msg) (hr : results.all s.bindAllowed = true)
    (h : s.processMsg msg results = some s') :
    (s'.mgr.phase.draining = true ↔ s.Handled msg results) ∧ s'.PortsFit := by
  have hgoes {s' : Server} (hph : s'.mgr.phase = .recvLoop) (hh : s.Handled msg results) :
      (s'.mgr.phase.draining = true ↔ s.Handled msg results) ∧ s'.PortsFit :=
    ⟨iff_of_true (by rw [hph]; rfl) hh, .of_phase (by simp [hph]) (by simp [hph])⟩
  have hbreaks (hh : ¬ s.Handled msg results) :
      (s.breakRecv.mgr.phase.draining = true ↔ s.Handled msg results) ∧ s.breakRecv.PortsFit :=
    ⟨iff_of_false Bool.false_ne_true hh, .of_phase (by simp [breakRecv, goto])
      (by simp [breakRecv, goto])⟩
  unfold processMsg at h
  split at h
  · rename_i ht
    have hcaught {x : Except PyError Relay} (hinit : Relay.init s.portRange results = some x) :
        s.Handled msg results ↔ ∀ e, x = .error e → ∃ text, e = .relayNoAvailablePort text := by
      rw [← init_caught hinit]
      exact ⟨fun hh => hh.2 ht, fun hb => ⟨(fun hc => by cases ht.symm.trans hc), fun _ => hb⟩⟩
    split at h
    · cases h
    · rename_i r hinit
      cases h
      refine ⟨iff_of_true rfl ((hcaught hinit).mpr (by simp)), ⟨?_, by simp⟩⟩
      rintro rid ⟨⟩
      obtain ⟨p, hp, rfl⟩ := Relay.init_bound hinit
      have hp := List.all_eq_true.mp hr _ hp
      simp only [bindAllowed, Bool.and_eq_true, decide_eq_true_eq] at hp
      simp only [setRelay_relay, Function.update_self]
      omega
    · rename_i text hinit
      cases h
      refine hgoes (s.reply_goes (wellFormed_error _)) ((hcaught hinit).mpr ?_)
      rintro e ⟨⟩
      exact ⟨text, rfl⟩
    · rename_i e hne hinit
      cases h
      rw [recvExcept_breaks (Relay.init_breaks hinit)]
      refine hbreaks fun hh => ?_
      obtain ⟨text, rfl⟩ := (hcaught hinit).mp hh e rfl
      exact hne text rfl
  · rename_i ht
    have hhandled : s.Handled msg results ↔ (s.mgr.relays.lookup msg.relayPort).isSome = true :=
      ⟨fun hh => hh.1 ht, fun hs => ⟨fun _ => hs, fun hc => by cases ht.symm.trans hc⟩⟩
    split at h <;> cases h
    · rename_i rid hrid
      exact hgoes rfl (hhandled.mpr (by rw [hrid]; rfl))
    · rename_i hnone
      exact hbreaks fun hh => by simp [hhandled, hnone] at hh
  · rename_i ht
    have hhandled : s.Handled msg results := .of_other (by simp [ht]) (by simp [ht])
    split at h <;> cases h
    · refine ⟨iff_of_true rfl hhandled, ⟨by simp [goto], ?_⟩⟩
      rintro port rid ⟨⟩
      have hfits := hm.fits (by simp [ht])
      simp only [Fits, ht] at hfits
      omega
    · exact hgoes rfl hhandled
  · rename_i ht
    have hhandled : s.Handled msg results := .of_other (by simp [ht]) (by simp [ht])
    split at h <;> cases h
    · exact hgoes rfl hhandled
    · exact hgoes (s.reply_goes (wellFormed_error _)) hhandled
  · rename_i h1 h2 h3 h4
    cases h
    exact hgoes rfl (.of_other h2 h1)

end Server

namespace ManagerRun
variable {P : ManagerRun → Event → Prop} {s t t' : ManagerRun} {e : Event} {n : Nat}
  {calls ms rest : List PortPortMessage} {p : Bytes}

/-- The buffer begins with a complete frame. -/
def More (b : Bytes) : Prop := ∃ x, grabMsg b = .ok x

/-- Where another frame stands behind it, the frame at the front of `recvq` is handled; and the
socket of a new relay is not closed before its port is read. -/
def Passes (s : ManagerRun) (e : Event) : Prop :=
  (∀ results msg recvq, e = .thread (.recvTurn results) →
    grabMsg s.server.mgr.recvq = .ok (msg, recvq) → More recvq → s.server.Handled msg results) ∧
  (∀ rid, e = .thread .turn → s.server.mgr.phase = .creating rid → More s.server.mgr.recvq →
    (s.server.relay rid).sck ≠ .closed)

theorem Passes.of_turn (h : ∀ rid, s.server.mgr.phase = .creating rid → More s.server.mgr.recvq →
    (s.server.relay rid).sck ≠ .closed) : Passes s (.thread .turn) where
  left := by
    rintro results msg recvq ⟨⟩
  right rid _ := h rid

/-- These frames are still to be handled. -/
structure Pending (rest : List PortPortMessage) (p : Bytes) (s : ManagerRun) : Prop where
  framed : ∀ m ∈ rest, Framed m
  recvq : s.server.mgr.recvq = rest.flatMap wireFrame ++ p
  fit : s.server.PortsFit

theorem more_iff (hms : ∀ m ∈ rest, Framed m) (hp : Cut p) :
    More (rest.flatMap wireFrame ++ p) ↔ rest ≠ [] := by
  cases rest with
  | nil =>
    obtain ⟨e, he, -⟩ := hp.grabMsg
    refine iff_of_false ?_ (not_not.mpr rfl)
    rintro ⟨x, hx⟩
    cases he.symm.trans hx
  | cons m rest =>
    refine iff_of_true ⟨(m, rest.flatMap wireFrame ++ p), ?_⟩ (List.cons_ne_nil _ _)
    rw [List.flatMap_cons, List.append_assoc]
    exact (hms m (List.mem_cons_self ..)).grabMsg _

theorem Pending.more (h : Pending rest p s) (hp : Cut p) :
    More s.server.mgr.recvq ↔ rest ≠ [] := by
  rw [h.recvq]
  exact more_iff h.framed hp

/-- The loop goes on behind a step that passes, and it is left behind one that does not pass, with
frames still in `recvq`. -/
structure Left (rest : List PortPortMessage) (t : ManagerRun) (e : Event) (t' : ManagerRun) :
    Prop where
  goes : t'.server.mgr.phase.draining = true → Passes t e
  left : t'.server.mgr.phase.draining = false → (Passes t e ↔ rest = [])

theorem Left.of_goes (hd : t'.server.mgr.phase.draining = true) (h : Passes t e) :
    Left rest t e t' := ⟨fun _ => h, fun hleft => nomatch hd.symm.trans hleft⟩

theorem Left.of_left (hd : t'.server.mgr.phase.draining = false) (h : Passes t e ↔ rest = []) :
    Left rest t e t' := ⟨(fun hgo => nomatch hd.symm.trans hgo), fun _ => h⟩

theorem Left.passes (h : Left rest t e t')
    (hor : t'.server.mgr.phase.draining = true ∨ rest = []) : Passes t e := by
  cases hd : t'.server.mgr.phase.draining with
  | true => exact h.goes hd
  | false => exact (h.left hd).mpr (hor.resolve_left (by simp [hd]))

theorem Pending.other (h : Pending rest p t) (hp : Cut p)
    (hd : t.server.mgr.phase.draining = true) (hi : ¬ t.Iterates e) (hs : step t e = some t') :
    Pending rest p t' ∧ Left rest t e t' := by
  have hrecvq := (other_recvq hd hi hs).trans h.recvq
  have hgoes (hph : t'.server.mgr.phase = .recvLoop) (hpass : Passes t e) :
      Pending rest p t' ∧ Left rest t e t' :=
    ⟨⟨h.framed, hrecvq, .of_phase (by rw [hph]; nofun) (by rw [hph]; nofun)⟩,
      .of_goes (by rw [hph]; rfl) hpass⟩
  have hleaves (hs' : t'.server = t.server.breakRecv) (hpass : Passes t e ↔ rest = []) :
      Pending rest p t' ∧ Left rest t e t' :=
    ⟨⟨h.framed, hrecvq, hs' ▸ .of_phase nofun nofun⟩, .of_left (by rw [hs']; rfl) hpass⟩
  rcases step_other hd hi hs with ⟨hph, hq, hs'⟩ | ⟨rid, rfl, hc, hs'⟩ | ⟨port, rid, rfl, hj, hs'⟩ |
    ⟨he, inboundData, wakeupPending, hs'⟩
  · -- `recvq` is empty, so nothing was left to be handled
    have hmore : ¬ More t.server.mgr.recvq := by
      rw [hq]
      rintro ⟨x, hx⟩
      cases hx
    refine hleaves hs' (iff_of_true ⟨?_, ?_⟩ (not_not.mp (mt (h.more hp).mpr hmore)))
    · rintro results msg recvq - hgrab
      exact absurd ⟨_, hgrab⟩ hmore
    · rintro rid - hc
      cases hph.symm.trans hc
  · have hpass : Passes t (.thread .turn) ↔ (rest ≠ [] → (t.server.relay rid).sck ≠ .closed) := by
      rw [← h.more hp]
      refine ⟨fun hpass => hpass.2 rid rfl hc, fun hsck => .of_turn fun rid' hc' => ?_⟩
      cases hc.symm.trans hc'
      exact hsck
    by_cases hsck : (t.server.relay rid).sck = .closed
    · rw [Server.announce_breaks hsck] at hs'
      exact hleaves hs' (by rw [hpass]; simp [hsck])
    · refine hgoes ?_ (hpass.mpr fun _ => hsck)
      rw [hs']
      exact Server.announce_goes hsck (h.fit.creating rid hc)
  · refine hgoes ?_ (.of_turn fun rid' hc => nomatch hj.symm.trans hc)
    rw [hs']
    exact Server.destroyed_goes (h.fit.joining port rid hj)
  · have hph : t'.server.mgr.phase = t.server.mgr.phase := by rw [hs']
    refine ⟨⟨h.framed, hrecvq, ⟨fun rid hc => ?_, fun port rid hj => ?_⟩⟩,
      .of_goes ((congrArg ManagerPhase.draining hph).trans hd)
        ⟨fun _ _ _ hturn => absurd hturn (he _), fun _ hturn => absurd hturn (he _)⟩⟩
    · rw [step_ports he hs]
      exact h.fit.creating rid (hph.symm.trans hc)
    · exact h.fit.joining port rid (hph.symm.trans hj)

theorem Pending.iterate (h : Pending rest p t) (hp : Cut p) (hi : t.Iterates e)
    (hs : step t e = some t') :
    (∃ m rest', rest = m :: rest' ∧ t.grabbed = [m] ∧ Pending rest' p t' ∧ Left rest' t e t') ∨
    rest = [] ∧ t.grabbed = [] ∧ Pending [] p t' ∧ Left [] t e t' ∧
      t'.server.mgr.phase.draining = false := by
  obtain ⟨⟨results, rfl⟩, hq⟩ := hi
  obtain ⟨hph, hall, hturn⟩ := step_recvTurn hs
  have hcreating (rid : Nat) : t.server.mgr.phase ≠ .creating rid := by rw [hph]; nofun
  cases rest with
  | cons m rest =>
    refine .inl ⟨m, rest, rfl, ?_⟩
    have hm := h.framed m (List.mem_cons_self ..)
    have hgrab : grabMsg t.server.mgr.recvq = .ok (m, rest.flatMap wireFrame ++ p) := by
      rw [h.recvq, List.flatMap_cons, List.append_assoc]
      exact hm.grabMsg _
    have hgrabbed : t.grabbed = [m] := by
      unfold grabbed
      rw [hgrab]
    have hrest : ∀ m ∈ rest, Framed m := fun m hm => h.framed m (List.mem_cons_of_mem _ hm)
    have hpass : Passes t (.thread (.recvTurn results)) ↔
        (rest ≠ [] → t.server.Handled m results) := by
      rw [← more_iff hrest hp]
      refine ⟨fun hpass => hpass.1 results m _ rfl hgrab, fun hhandled => ⟨?_, ?_⟩⟩
      · rintro _ msg recvq ⟨⟩ hgrab'
        cases hgrab.symm.trans hgrab'
        exact hhandled
      · exact fun rid _ hc => absurd hc (hcreating rid)
    rcases Server.recvTurn_cases hq hturn with ⟨msg, recvq, hgrab', hrecvq, hmsg⟩ | ⟨x, hraise, -⟩
    · cases hgrab.symm.trans hgrab'
      obtain ⟨hgoes, hfit⟩ := Server.processMsg_handled
        (s := t.server.withMgr { t.server.mgr with recvq := rest.flatMap wireFrame ++ p })
        hm hall hmsg
      have hgoes : t'.server.mgr.phase.draining = true ↔ t.server.Handled m results := hgoes
      refine ⟨hgrabbed, ⟨hrest, hrecvq, hfit⟩, fun hgo => hpass.mpr fun _ => hgoes.mp hgo, ?_⟩
      intro hleft
      rw [hpass, ← hgoes, hleft]
      simp
    · cases hgrab.symm.trans hraise
  | nil =>
    obtain ⟨x, hx, hordinary⟩ := hp.grabMsg
    have hx' : grabMsg t.server.mgr.recvq = .error x := by
      rw [h.recvq]
      exact hx
    have hgrabbed : t.grabbed = [] := by
      unfold grabbed
      rw [hx']
    have hpass : Passes t (.thread (.recvTurn results)) := by
      refine ⟨fun _ _ _ _ hgrab => ?_, fun rid _ hc => absurd hc (hcreating rid)⟩
      cases hx'.symm.trans hgrab
    rcases iterate_cases ⟨⟨results, rfl⟩, hq⟩ hs with ⟨_, hgrab⟩ | ⟨-, hs'⟩ | ⟨hbad, -, -⟩
    · cases hx'.symm.trans hgrab
    · have hleft : t'.server.mgr.phase.draining = false := by rw [hs']; rfl
      have hrecvq : t'.server.mgr.recvq = t.server.mgr.recvq := by rw [hs']; rfl
      refine .inr ⟨rfl, hgrabbed, ⟨h.framed, hrecvq.trans h.recvq, ?_⟩, .of_left hleft ?_, hleft⟩
      · rw [hs']
        exact .of_phase nofun nofun
      · exact iff_of_true hpass rfl
    · obtain ⟨text, hraise⟩ := hbad.deserialize
      cases hx'.symm.trans hraise
      cases hordinary

/-- Where a pass has come to: what has been handled and what has not, and whether it is still under
way. -/
structure Progress (ms : List PortPortMessage) (p : Bytes) (s : ManagerRun) (n : Nat)
    (calls : List PortPortMessage) (t : ManagerRun) (rest : List PortPortMessage) : Prop where
  split : ms = calls ++ rest
  pending : Pending rest p t
  begun : n ≤ calls.length ∨ t.server.mgr.phase.draining = false ∧ n ≤ calls.length + 1
  passed : t.server.mgr.phase.draining = true ∨ rest = [] → Drain Passes s n calls t

theorem Drain.progress (h : Drain P s n calls t) (h0 : Pending ms p s)
    (hph : s.server.mgr.phase = .recvLoop) (hp : Cut p) :
    ∃ rest, Progress ms p s n calls t rest ∧ ((∀ t e, P t e → Passes t e) →
      t.server.mgr.phase.draining = false → rest = []) := by
  induction h with
  | start =>
    exact ⟨ms, ⟨rfl, h0, .inl (Nat.le_refl 0), fun _ => .start⟩,
      fun _ hleft => by rw [hph] at hleft; cases hleft⟩
  | @iterate n calls t e t' _ hP hi hs ih =>
    obtain ⟨rest, hprog, -⟩ := ih
    have hd : t.server.mgr.phase.draining = true := by
      obtain ⟨⟨results, rfl⟩, -⟩ := hi
      rw [(step_recvTurn hs).1]
      rfl
    have hbegun := hprog.begun.resolve_right (by simp [hd])
    have hpassed := hprog.passed (.inl hd)
    rcases hprog.pending.iterate hp hi hs with ⟨m, rest', rfl, hgrabbed, hpend, hleft⟩ |
      ⟨rfl, hgrabbed, hpend, hleft, hend⟩
    · rw [hgrabbed]
      refine ⟨rest', ⟨?_, hpend, .inl ?_, ?_⟩, fun hPP hend => (hleft.left hend).mp (hPP _ _ hP)⟩
      · rw [hprog.split, List.append_assoc, List.singleton_append]
      · rw [List.length_append, List.length_singleton]
        omega
      · exact fun hor => hgrabbed ▸ hpassed.iterate (hleft.passes hor) hi hs
    · refine ⟨[], ⟨?_, hpend, .inr ⟨hend, ?_⟩, ?_⟩, fun _ _ => rfl⟩
      · rw [hgrabbed, List.append_nil]
        exact hprog.split
      · rw [hgrabbed, List.append_nil]
        omega
      · exact fun hor => hpassed.iterate (hleft.passes hor) hi hs
  | @other n calls t e t' _ hd hP hi hs ih =>
    obtain ⟨rest, hprog, -⟩ := ih
    have hbegun := hprog.begun.resolve_right (by simp [hd])
    have hpassed := hprog.passed (.inl hd)
    obtain ⟨hpend, hleft⟩ := hprog.pending.other hp hd hi hs
    refine ⟨rest, ⟨hprog.split, hpend, .inl hbegun, ?_⟩,
      fun hPP hend => (hleft.left hend).mp (hPP _ _ hP)⟩
    exact fun hor => hpassed.other hd (hleft.passes hor) hi hs

/-- **A pass of the receive loop handles every complete frame** exactly when no frame that another
one stands behind raises in `process_msg`: from a `recvq` of frames and the beginning of one more,
a pass that has left the loop has called `process_msg` on all the frames, in order, and has left the
beginning in `recvq`, exactly if each of its steps passes. It begins at most one iteration more
than there are frames, and the thread can always go on or waits for a relay to end. -/
theorem recvLoop_handles_iff {ms : List PortPortMessage} {p : Bytes}
    (hph : s.server.mgr.phase = .recvLoop) (hms : ∀ m ∈ ms, Framed m) (hp : Cut p)
    (hq : s.server.mgr.recvq = ms.flatMap wireFrame ++ p)
    (h : Drain (fun _ _ => True) s n calls t) :
    n ≤ ms.length + 1 ∧ (t.server.mgr.phase.draining = true → t.Moves) ∧
      (t.server.mgr.phase.draining = false →
        ((calls = ms ∧ t.server.mgr.recvq = p) ↔ Drain Passes s n calls t)) := by
  have h0 : Pending ms p s := ⟨hms, hq, .of_phase (by rw [hph]; nofun) (by rw [hph]; nofun)⟩
  obtain ⟨rest, hprog, -⟩ := h.progress h0 hph hp
  refine ⟨?_, draining_moves, fun hleft => ⟨?_, fun hpasses => ?_⟩⟩
  · have hlen := congrArg List.length hprog.split
    rw [List.length_append] at hlen
    rcases hprog.begun with hle | ⟨-, hle⟩
    · omega
    · omega
  · rintro ⟨rfl, -⟩
    exact hprog.passed (.inr (List.self_eq_append_right.mp hprog.split))
  · obtain ⟨rest', hprog', hend⟩ := hpasses.progress h0 hph hp
    have hnil := hend (fun _ _ hP => hP) hleft
    subst hnil
    have hrecvq := hprog'.pending.recvq
    exact ⟨(hprog'.split.trans (List.append_nil _)).symm, hrecvq⟩

/-- A CREATE_RELAY, data for the new relay and the first byte of another frame. -/
theorem recvLoop_handles_createRelay :
    let create : PortPortMessage := { msgType := .createRelay }
    let data : PortPortMessage :=
      { msgType := .data, addr := .dotted 127 0 0 1, port := 80, relayPort := 4000, data := [7] }
    ∃ s t,
      run (fun _ _ => true) (received (wireFrame create ++ (wireFrame data ++ [64]))) = some s ∧
      Drain (fun _ _ => True) s 3 [create, data] t ∧ 3 ≤ [create, data].length + 1 ∧
      t.server.mgr.phase.draining = false ∧
      (([create, data] = [create, data] ∧ t.server.mgr.recvq = [64]) ↔
        Drain Passes s 3 [create, data] t) := by
  intro create data
  have hcreate : Framed create := ⟨rfl, rfl, fun _ => trivial, nofun⟩
  have hdata : Framed data := ⟨rfl, rfl, fun _ => ⟨by decide, by decide⟩, nofun⟩
  have hx : ((run (fun _ _ => true)
      (received (wireFrame create ++ (wireFrame data ++ [64])))).bind fun s =>
      (step s (.thread (.recvTurn [.bound 4000]))).bind fun s₁ =>
      (step s₁ (.thread .turn)).bind fun s₂ => (step s₂ (.thread (.recvTurn []))).bind fun s₃ =>
      (step s₃ (.thread (.recvTurn []))).map fun t =>
        ((s.server.mgr.phase, s.server.mgr.recvq), (s₁.server.mgr.phase, s₂.server.mgr.recvq),
          (s₃.server.mgr.recvq, t.server.mgr.phase.draining))) =
      some ((.recvLoop, wireFrame create ++ (wireFrame data ++ [64])),
        (.creating 0, wireFrame data ++ [64]), ([64], false)) := by
    decide +kernel
  obtain ⟨s, hs, hx⟩ := Option.bind_eq_some_iff.mp hx
  obtain ⟨s₁, h₁, hx⟩ := Option.bind_eq_some_iff.mp hx
  obtain ⟨s₂, h₂, hx⟩ := Option.bind_eq_some_iff.mp hx
  obtain ⟨s₃, h₃, hx⟩ := Option.bind_eq_some_iff.mp hx
  obtain ⟨t, ht, hseen⟩ := Option.map_eq_some_iff.mp hx
  obtain ⟨⟨hph, hq⟩, ⟨hph₁, hq₂⟩, hq₃, hleft⟩ :
      (s.server.mgr.phase = .recvLoop ∧
        s.server.mgr.recvq = wireFrame create ++ (wireFrame data ++ [64])) ∧
      (s₁.server.mgr.phase = .creating 0 ∧ s₂.server.mgr.recvq = wireFrame data ++ [64]) ∧
      s₃.server.mgr.recvq = [64] ∧ t.server.mgr.phase.draining = false := by
    simpa using hseen
  have hgrabs {u : ManagerRun} {m : PortPortMessage} {rest : Bytes} (hm : Framed m)
      (hu : u.server.mgr.recvq = wireFrame m ++ rest) : u.grabbed = [m] := by
    unfold grabbed
    rw [hu, hm.grabMsg]
  have hnone : s₃.grabbed = [] := by
    unfold grabbed
    rw [hq₃]
    rfl
  have hdrain : Drain (fun _ _ => True) s 3 ([] ++ s.grabbed ++ s₂.grabbed ++ s₃.grabbed) t := by
    have hcreated : Drain (fun _ _ => True) s 1 ([] ++ s.grabbed) s₁ :=
      .iterate .start trivial ⟨⟨_, rfl⟩, by rw [hq]; nofun⟩ h₁
    have hannounced := hcreated.other (by rw [hph₁]; rfl) trivial (by simp [Iterates]) h₂
    have hdata := hannounced.iterate trivial ⟨⟨_, rfl⟩, by rw [hq₂]; nofun⟩ h₃
    exact hdata.iterate trivial ⟨⟨_, rfl⟩, by rw [hq₃]; nofun⟩ ht
  rw [hgrabs hcreate hq, hgrabs hdata hq₂, hnone] at hdrain
  have hframed : ∀ m ∈ [create, data], Framed m := by
    intro m hm
    rcases List.mem_pair.mp hm with rfl | rfl
    · exact hcreate
    · exact hdata
  have hcut : Cut [64] := ⟨create, ⟨rfl, trivial, rfl, nofun⟩, ⟨[1, 1], rfl⟩, nofun⟩
  obtain ⟨hlen, -, hiff⟩ := recvLoop_handles_iff hph hframed hcut (by rw [hq]; rfl) hdrain
  exact ⟨s, t, hs, hdrain, hlen, hleft, hiff hleft⟩

/-- A CLOSE_CONNECTION for a relay that is not registered keeps the CREATE_RELAY behind it from
being handled. -/
theorem close_stops_pass : ¬ ∀ s n calls t (ms : List PortPortMessage) p,
    Reachable (fun _ _ => True) s → s.server.mgr.phase = .recvLoop → (∀ m ∈ ms, Framed m) →
    Cut p → s.server.mgr.recvq = ms.flatMap wireFrame ++ p → Drain (fun _ _ => True) s n calls t →
    t.server.mgr.phase.draining = false → calls = ms ∧ t.server.mgr.recvq = p := by
  intro h
  let close : PortPortMessage :=
    { msgType := .closeConnection, addr := .dotted 127 0 0 1, port := 80, relayPort := 5 }
  let create : PortPortMessage := { msgType := .createRelay }
  obtain ⟨s, t, hrun, hst, hph, hsq, hend⟩ : ∃ s t,
      run (fun _ _ => true) (received (wireFrame close ++ wireFrame create)) = some s ∧
      step s (.thread (.recvTurn [])) = some t ∧ s.server.mgr.phase = .recvLoop ∧
      s.server.mgr.recvq = wireFrame close ++ wireFrame create ∧
      t.server.mgr.phase.draining = false := ⟨_, _, rfl, rfl, rfl, rfl, rfl⟩
  have hreach := Reachable.of_run (P := fun _ _ => True) (fun _ _ _ => trivial) hrun
  have hdrain : Drain (fun _ _ => True) s 1 ([] ++ s.grabbed) t :=
    .iterate .start trivial ⟨⟨[], rfl⟩, by rw [hsq]; nofun⟩ hst
  have hclose : Framed close := ⟨rfl, rfl, fun _ => ⟨by decide, by decide⟩, nofun⟩
  have hs : s.grabbed = [close] := by
    unfold grabbed
    rw [hsq, hclose.grabMsg]
  have hframed : ∀ m ∈ [close, create], Framed m := by
    intro m hm
    rcases List.mem_pair.mp hm with rfl | rfl
    · exact hclose
    · exact ⟨rfl, rfl, fun _ => trivial, nofun⟩
  have hcut : Cut [] := ⟨create, ⟨rfl, trivial, rfl, nofun⟩, List.nil_prefix, nofun⟩
  obtain ⟨hcalls, -⟩ := h s 1 _ t [close, create] [] hreach hph hframed hcut hsq hdrain
    hend
  rw [hs] at hcalls
  cases hcalls

end ManagerRun
end PortPort
