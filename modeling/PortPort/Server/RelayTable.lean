import PortPort.Server.ManagerEnd

/-! # The relay table of a management connection

A step of the thread makes a relay out of a CREATE_RELAY message and registers it under the port of
its socket, or makes none and at most deletes entries. -/

namespace PortPort
open Relay (BindResult)

/-- The thread has ended, and its local variables are gone. -/
def ManagerPhase.ended : ManagerPhase → Bool
  | .closed | .crashed _ => true
  | _ => false

namespace Server

/-- The port of the relay that the turn of the receive loop makes. -/
def newPort (s : Server) (results : List BindResult) : Option Int :=
  match grabMsg s.mgr.recvq, Relay.init s.portRange results with
  | .ok (msg, _), some (.ok r) =>
    if msg.msgType = .createRelay then some r.identifyingPort else none
  | _, _ => none

/-- What a step of the thread does to the relays it has registered. -/
inductive TableStep (s : Server) : ManagerAction → Server → Prop
  | kept (hn : s'.nrelays = s.nrelays) (hp : ∀ rid, s'.mgr.phase ≠ .creating rid)
      (hr : ∀ port rid, s'.mgr.relays.lookup port = some rid →
        s.mgr.relays.lookup port = some rid)
      (hj : ∀ port rid, s'.mgr.phase = .joining port rid →
        s'.mgr.relays.lookup port = some rid) : TableStep s a s'
  | made (hb : .bound p ∈ results) (hnew : s.newPort results = some p)
      (hn : s'.nrelays = s.nrelays + 1) (hp : s'.mgr.phase = .creating s.nrelays)
      (hr : s'.mgr.relays = s.mgr.relays.set p s.nrelays)
      (hrelay : s'.relay = Function.update s.relay s.nrelays { identifyingPort := p }) :
      TableStep s (.recvTurn results) s'

variable {s s' : Server} {a : ManagerAction}

/-- A reply leaves the table as it was, or as `process_msg` has left it. -/
theorem Replied.table {m : Manager} (h : Replied (s.withMgr m) s')
    (hr : ∀ port rid, m.relays.lookup port = some rid →
      s.mgr.relays.lookup port = some rid) : TableStep s a s' := by
  refine .kept h.nrelays (fun rid hrid => ?_) (fun port rid hrid => hr port rid (h.relays ▸ hrid))
    fun port rid hrid => ?_
  all_goals
    rcases h.phase with hp | hp
    · cases hp.symm.trans hrid
    · cases hp.symm.trans hrid

theorem Processes.table {msg : PortPortMessage} {recvq : Bytes} {results : List BindResult}
    (h : Processes (s.withMgr { s.mgr with recvq }) msg results s')
    (hgrab : grabMsg s.mgr.recvq = .ok (msg, recvq)) : TableStep s (.recvTurn results) s' := by
  cases h with
  | creates ht hinit =>
    obtain ⟨p, hp, rfl⟩ := Relay.init_bound hinit
    have hinit : Relay.init s.portRange results = some (.ok { identifyingPort := p }) := hinit
    refine .made hp ?_ rfl rfl rfl rfl
    simp only [newPort, hgrab, hinit, if_pos ht]
  | joins hl =>
    refine .kept rfl nofun (fun _ _ => id) fun port rid hrid => ?_
    cases hrid
    exact hl
  | replies hr => exact hr.replied.table fun _ _ => id
  | _ => exact .kept rfl nofun (fun _ _ => id) nofun

theorem drains_table {m : Manager} {left : Nat} (hd : s.mgr.Drains left m) :
    TableStep s a (s.withMgr m) := by
  cases hd with
  | sends hl hi hm =>
    obtain ⟨data, writeEnabled, mask, -, rfl⟩ := Manager.send_sent hm
    exact .kept rfl nofun (fun _ _ => id) nofun
  | _ => exact .kept rfl nofun (fun _ _ => id) nofun

theorem mgrStep_table (h : s.mgrStep a = some s') : TableStep s a s' := by
  cases mgrStep_moves h with
  | @clientIo mask events io =>
    have hmoved := s.mgr.handleRelayClient_moved mask io
    refine .kept rfl (fun rid => ?_) (fun port rid hrid => hmoved.relays ▸ hrid) fun port rid => ?_
    all_goals
      simp only [withMgr_mgr]
      split <;> nofun
  | takes _ _ hgrab hmsg => exact hmsg.table hgrab
  | refuses _ _ hr => exact hr.replied.table fun _ _ => id
  | announces _ hr => exact hr.replied.table fun _ _ => id
  | destroys _ _ hr =>
    refine hr.replied.table fun port rid hrid => ?_
    rw [Dict.lookup_erase] at hrid
    split at hrid
    · cases hrid
    · exact hrid
  | drains => exact drains_table (s.mgr.inboundTurn_drains _)
  | _ => exact .kept rfl nofun (fun _ _ => id) nofun

/-! ## One connection -/

theorem mem_registered_iff {rid : Nat} :
    rid ∈ s.registered ↔ ∃ port, s.mgr.relays.lookup port = some rid := by
  refine ⟨fun h => ?_, fun ⟨port, h⟩ => mem_registered h⟩
  obtain ⟨⟨port, _⟩, hmem, rfl⟩ := List.mem_map.mp h
  exact ⟨port, AList.mem_lookup_iff.mpr (List.mem_reverse.mp hmem)⟩

/-- Every relay is registered under its port, the relay to be announced has been made, and the relay
whose thread is joined is registered. -/
structure TableSound (s : Server) : Prop where
  key : ∀ port rid, s.mgr.relays.lookup port = some rid →
    rid < s.nrelays ∧ (s.relay rid).identifyingPort = port
  creating : ∀ rid, s.mgr.phase = .creating rid → rid < s.nrelays
  joining : ∀ port rid, s.mgr.phase = .joining port rid → s.mgr.relays.lookup port = some rid

/-- The relays of before have kept their ports, and have moved on from the start of their threads
to the listening socket. -/
structure Aged (s s' : Server) : Prop where
  nrelays : s.nrelays ≤ s'.nrelays
  port : ∀ rid < s.nrelays, (s'.relay rid).identifyingPort = (s.relay rid).identifyingPort
  start : ∀ rid < s.nrelays, (s'.relay rid).phase = .start → (s.relay rid).phase = .start
  listening : ∀ rid < s.nrelays, (s'.relay rid).sck = .listening →
    (s.relay rid).sck = .listening ∨ (s.relay rid).phase = .start

theorem Aged.refl (s : Server) : Aged s s :=
  ⟨Nat.le_refl _, fun _ _ => rfl, fun _ _ => id, fun _ _ => .inl⟩

theorem Aged.setRelay {rid : Nat} {r : Relay}
    (hport : r.identifyingPort = (s.relay rid).identifyingPort)
    (hstart : r.phase = .start → (s.relay rid).phase = .start)
    (hsck : r.sck = .listening → (s.relay rid).sck = .listening ∨ (s.relay rid).phase = .start) :
    Aged s (s.setRelay rid r) := by
  have hrelay (i : Nat) : i = rid ∧ (s.setRelay rid r).relay i = r ∨
      (s.setRelay rid r).relay i = s.relay i := by
    by_cases hi : i = rid
    · exact .inl ⟨hi, by rw [setRelay_relay, hi, Function.update_self]⟩
    · exact .inr (Function.update_of_ne hi ..)
  refine ⟨Nat.le_refl _, fun i _ => ?_, fun i _ => ?_, fun i _ => ?_⟩
  all_goals
    rcases hrelay i with ⟨rfl, hr⟩ | hr
    all_goals rw [hr]
  · exact hport
  · exact hstart
  · exact id
  · exact hsck
  · exact .inl

theorem mgrStep_aged (h : s.mgrStep a = some s') : Aged s s' := by
  obtain ⟨hn, hkept⟩ := mgrStep_relaysKept h
  refine ⟨hn, fun rid hrid => ?_, fun rid hrid => ?_, fun rid hrid => ?_⟩
  all_goals
    obtain ⟨outbound, atomicClose, wakeupPending, woken, hr⟩ := hkept rid hrid
    rw [hr]
  · exact id
  · exact .inl

theorem mgrStep_tableSound (h0 : TableSound s) (h : s.mgrStep a = some s') : TableSound s' := by
  have haged := mgrStep_aged h
  have hkey {port : Int} {rid : Nat} (hr : s.mgr.relays.lookup port = some rid) :
      rid < s'.nrelays ∧ (s'.relay rid).identifyingPort = port :=
    have ⟨hlt, hport⟩ := h0.key port rid hr
    ⟨hlt.trans_le haged.nrelays, (haged.port rid hlt).trans hport⟩
  cases mgrStep_table h with
  | kept hn hp hr hj => exact ⟨fun port rid hrid => hkey (hr port rid hrid), fun rid hrid =>
      absurd hrid (hp rid), hj⟩
  | @made p results _ hb hnew hn hp hr hrelay =>
    refine ⟨fun port rid hrid => ?_, fun rid hrid => ?_, fun port rid hrid => ?_⟩
    · rw [hr, Dict.lookup_set] at hrid
      split at hrid
      · rename_i hport
        cases hrid
        rw [hn, hrelay, Function.update_self, hport]
        exact ⟨Nat.lt_succ_self _, rfl⟩
      · exact hkey hrid
    · cases hp.symm.trans hrid
      rw [hn]
      exact Nat.lt_succ_self _
    · cases hp.symm.trans hrid

theorem mgrStep_running (h : s.mgrStep a = some s') : s.mgr.phase.ended = false := by
  cases hp : s.mgr.phase with
  | closed | crashed =>
    simp only [mgrStep, hp] at h
    cases h
  | _ => rfl

/-- The relay is in the table of a thread that has not ended. -/
def Registers (s : Server) (rid : Nat) : Prop := s.mgr.phase.ended = false ∧ rid ∈ s.registered

instance (s : Server) (rid : Nat) : Decidable (Registers s rid) :=
  inferInstanceAs (Decidable (_ ∧ _))

theorem mgrStep_registers (h : s.mgrStep a = some s') {rid : Nat} (hrid : rid < s.nrelays)
    (hr : Registers s' rid) : Registers s rid := by
  refine ⟨mgrStep_running h, mem_registered_iff.mpr ?_⟩
  obtain ⟨port, hport⟩ := mem_registered_iff.mp hr.2
  cases mgrStep_table h with
  | kept hn hp hr => exact ⟨port, hr port rid hport⟩
  | made hb hnew hn hp hr hrelay =>
    rw [hr, Dict.lookup_set] at hport
    split at hport
    · cases hport
      exact absurd hrid (Nat.lt_irrefl _)
    · exact ⟨port, hport⟩

/-- A new relay takes the place of an old one with its port. -/
theorem set_registered {p : Int} (h0 : TableSound s)
    (hr : s'.mgr.relays = s.mgr.relays.set p s.nrelays) {rid : Nat} (hrid : rid < s.nrelays)
    (h : rid ∈ s'.registered) : (s.relay rid).identifyingPort ≠ p := by
  obtain ⟨port, hport⟩ := mem_registered_iff.mp h
  rw [hr, Dict.lookup_set] at hport
  split at hport
  · cases hport
    exact absurd hrid (Nat.lt_irrefl _)
  · rename_i hne
    exact (h0.key port rid hport).2 ▸ hne

end Server

namespace ManagerRun
open Server (TableSound Aged Registers)
variable {s s' : ManagerRun} {e : Event}

theorem step_nrelays (he : ∀ a, e ≠ .thread a) (h : step s e = some s') :
    s'.server.nrelays = s.server.nrelays := by
  cases e with
  | thread a => exact absurd rfl (he a)
  | relay rid a =>
    obtain ⟨⟨server, puts⟩, hserver, rfl⟩ := Option.map_eq_some_iff.mp h
    obtain ⟨-, -, r, -, rfl⟩ := Server.relayStep_cases hserver
    rfl
  | wakeup =>
    simp only [step, Option.ite_none_right_eq_some, Option.some.injEq] at h
    obtain ⟨-, rfl⟩ := h
    rfl
  | shutdown =>
    cases h
    rfl

theorem step_others_aged (he : ∀ a, e ≠ .thread a) (h : step s e = some s') :
    Aged s.server s'.server := by
  refine ⟨(step_nrelays he h).ge, fun rid _ => ?_, fun rid _ hp => ?_, fun rid _ hsck => ?_⟩
  all_goals rcases step_relay he h rid with hr | ⟨a, hr⟩
  · rw [hr]
  · exact hr.port
  · exact hr ▸ hp
  · exact absurd hp hr.started
  · exact .inl (hr ▸ hsck)
  · rcases hr.sck with hsame | ⟨hstart, -⟩ | ⟨-, -, hclosed⟩
    · exact .inl (hsame ▸ hsck)
    · exact .inr hstart
    · cases hclosed.symm.trans hsck

theorem step_aged (h : step s e = some s') : Aged s.server s'.server := by
  cases e with
  | thread a =>
    obtain ⟨server, hserver, rfl⟩ := Option.map_eq_some_iff.mp h
    exact Server.mgrStep_aged hserver
  | _ => exact step_others_aged (by nofun) h

theorem step_registers (h : step s e = some s') {rid : Nat} (hrid : rid < s.server.nrelays)
    (hr : Registers s'.server rid) : Registers s.server rid := by
  have hother (he : ∀ a, e ≠ .thread a) : Registers s.server rid := by
    obtain ⟨inboundData, wakeupPending, hm⟩ := step_others he h
    unfold Registers Server.registered at hr ⊢
    rw [hm] at hr
    exact hr
  cases e with
  | thread a =>
    obtain ⟨server, hserver, rfl⟩ := Option.map_eq_some_iff.mp h
    exact Server.mgrStep_registers hserver hrid hr
  | _ => exact hother (by nofun)

theorem start_tableSound (portRange : Option (Int × Int)) :
    TableSound (start portRange).server where
  key port rid h := by simp [start] at h
  creating rid h := by simp [start] at h
  joining port rid h := by simp [start] at h

theorem step_tableSound (h0 : TableSound s.server) (h : step s e = some s') :
    TableSound s'.server := by
  have hother (he : ∀ a, e ≠ .thread a) : TableSound s'.server := by
    obtain ⟨inboundData, wakeupPending, hm⟩ := step_others he h
    have haged := step_others_aged he h
    have hn := step_nrelays he h
    refine ⟨fun port rid hrid => ?_, fun rid hrid => ?_, fun port rid hrid => ?_⟩
    · rw [hm] at hrid
      obtain ⟨hlt, hport⟩ := h0.key port rid hrid
      exact ⟨hn ▸ hlt, (haged.port rid hlt).trans hport⟩
    · rw [hm] at hrid
      exact hn ▸ h0.creating rid hrid
    · rw [hm] at hrid ⊢
      exact h0.joining port rid hrid
  cases e with
  | thread a =>
    obtain ⟨server, hserver, rfl⟩ := Option.map_eq_some_iff.mp h
    exact Server.mgrStep_tableSound h0 hserver
  | _ => exact hother (by nofun)

end ManagerRun
end PortPort
