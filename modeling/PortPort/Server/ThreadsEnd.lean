import Mathlib.Data.Prod.Lex
import PortPort.Server.RecvDrain
import PortPort.Server.RelayEnds

/-! # The end of the threads of a management connection

Once it is to close, the management thread ends unless it meets a frame of another version, and with
the service the threads of all its relays end. In `join` the thread waits for the thread of a relay,
which is to close as well. -/

namespace PortPort
open PortPortMessage
open Relay (BindResult)
open Server (ManagerAction)

namespace Server
variable {s s' : Server}

/-- The loop of the management thread finds a close event set. -/
def Stops (s : Server) : Prop := (s.closeService || s.mgr.closeThread) = true

/-- The receive loop has come to a frame of another version. -/
def Spins (s : Server) : Prop := s.mgr.phase = .recvLoop ∧ BadVersion s.mgr.recvq

/-- A bound on the steps that the thread takes when it is to close: a callback on the management
socket may have another `RECV_SIZE` bytes to be decoded, and a frame may make one more relay. -/
def mgrTogo (s : Server) : Nat :=
  match s.mgr.phase with
  | .top => s.mgr.relays.size + 2
  | .dispatch events =>
    (RECV_SIZE + 1) * events.length + s.mgr.recvq.length + s.mgr.relays.size + INBOUND_BATCH + 5
  | .recvLoop => s.mgr.recvq.length + s.mgr.relays.size + INBOUND_BATCH + 4
  | .creating _ | .joining _ _ => s.mgr.recvq.length + s.mgr.relays.size + INBOUND_BATCH + 5
  | .inboundLoop left => left + s.mgr.relays.size + 3
  | .closing rids => rids.length + 1
  | .closed | .crashed _ => 0

/-! ## The close events -/

theorem recvExcept_closeThread (e : PyError) (h : s.mgr.closeThread = true) :
    (s.recvExcept e).mgr.closeThread = true := by
  rcases recvExcept_cases s e with ⟨err, m, -, he⟩ | ⟨he, -⟩
  · rw [he]
    rfl
  · rw [he]
    exact h

theorem reply_closeThread (msg : PortPortMessage) (h : s.mgr.closeThread = true) :
    (s.reply msg).mgr.closeThread = true := by
  unfold reply
  split
  · obtain ⟨_, _, _, -, rfl⟩ := Manager.send_sent ‹_›
    exact h
  · exact recvExcept_closeThread _ h

theorem processMsg_closeThread {msg : PortPortMessage} {results : List BindResult}
    (h : s.mgr.closeThread = true) (hs : s.processMsg msg results = some s') :
    s'.mgr.closeThread = true := by
  unfold processMsg at hs
  split at hs
  · split at hs <;> cases hs
    · exact h
    · exact reply_closeThread _ h
    · exact recvExcept_closeThread _ h
  · split at hs <;> cases hs
    · exact h
    · exact recvExcept_closeThread _ h
  · split at hs <;> cases hs
    · exact h
    · exact h
  · split at hs <;> cases hs
    · exact h
    · exact reply_closeThread _ h
  · cases hs
    exact h

theorem recvTurn_closeThread {results : List BindResult} (h : s.mgr.closeThread = true)
    (hs : s.recvTurn results = some s') : s'.mgr.closeThread = true := by
  unfold recvTurn at hs
  split at hs
  · cases hs
    exact h
  split at hs
  · refine processMsg_closeThread ?_ hs
    exact h
  · cases hs
    exact recvExcept_closeThread _ h

theorem announce_closeThread (rid : Nat) (h : s.mgr.closeThread = true) :
    (s.announce rid).mgr.closeThread = true := by
  unfold announce
  split
  · exact reply_closeThread _ h
  · exact recvExcept_closeThread _ h

end Server

namespace Manager
variable {m m' : Manager}

theorem handleWrite_closeThread (send : Except OSError Nat) (h : m.closeThread = true) :
    (m.handleWrite send).state.closeThread = true := by
  have hsent {out : Outcome Manager} (h : out.state.closeThread = true) :
      (if out.raised = none ∧ out.state.sendq = [] then
        { state := { out.state with writeEnabled := false, mask := .r } }
        else out : Outcome Manager).state.closeThread = true := by
    split
    · exact h
    · exact h
  apply hsent
  split <;> first | exact h | rfl

theorem handleRead_closeThread (recv : Except OSError Bytes) (h : m.closeThread = true) :
    (m.handleRead recv).state.closeThread = true := by
  unfold handleRead
  split <;> simp [h]

theorem handleRelayClient_closeThread (mask : Mask) (io : ClientIO) (h : m.closeThread = true) :
    (m.handleRelayClient mask io).state.closeThread = true := by
  have hread {out : Outcome Manager} (h : out.state.closeThread = true) :
      (if out.raised = none ∧ mask.read then out.state.handleRead io.recv
        else out : Outcome Manager).state.closeThread = true := by
    split
    · exact handleRead_closeThread _ h
    · exact h
  apply hread
  split
  · exact handleWrite_closeThread _ h
  · exact h

theorem Drains.closeThread {left : Nat} (hd : m.Drains left m') (h : m.closeThread = true) :
    m'.closeThread = true := by
  cases hd with
  | ends => exact h
  | sends _ _ hs =>
    obtain ⟨_, _, _, -, rfl⟩ := send_sent hs
    exact h
  | fails => rfl

/-! ## What a callback receives -/

theorem handleRead_recvq_le {recv : Except OSError Bytes} (h : recvAllowed recv = true) :
    (m.handleRead recv).state.recvq.length ≤ m.recvq.length + RECV_SIZE := by
  unfold handleRead
  split
  · simpa [recvAllowed] using h
  · exact Nat.le_add_right ..
  · exact Nat.le_add_right ..
  · exact Nat.le_add_right ..
  · exact Nat.le_add_right ..
  · exact Nat.le_add_right ..
  · exact Nat.le_add_right ..

theorem handleRelayClient_recvq_le {mask : Mask} {io : ClientIO}
    (h : recvAllowed io.recv = true) :
    (m.handleRelayClient mask io).state.recvq.length ≤ m.recvq.length + RECV_SIZE := by
  have hread {out : Outcome Manager} (hq : out.state.recvq = m.recvq) :
      (if out.raised = none ∧ mask.read then out.state.handleRead io.recv
        else out : Outcome Manager).state.recvq.length ≤ m.recvq.length + RECV_SIZE := by
    split
    · exact hq ▸ handleRead_recvq_le h
    · rw [hq]
      exact Nat.le_add_right ..
  apply hread
  split
  · exact handleWrite_recvq ..
  · rfl

end Manager

namespace Server
variable {s s' : Server}

theorem mgrStep_closeThread {a : ManagerAction} (h : s.mgr.closeThread = true)
    (hs : s.mgrStep a = some s') : s'.mgr.closeThread = true := by
  cases mgrStep_moves hs with
  | clientIo => exact Manager.handleRelayClient_closeThread _ _ h
  | wakeupRead => simp [h]
  | takes => exact recvTurn_closeThread h (mgrStep_recvTurn hs).2.2
  | refuses => exact recvExcept_closeThread _ h
  | announces => exact announce_closeThread _ h
  | destroys => exact reply_closeThread _ h
  | drains => exact (s.mgr.inboundTurn_drains _).closeThread h
  | _ => exact h

theorem Stops.mgrStep {a : ManagerAction} (h : s.Stops) (hs : s.mgrStep a = some s') :
    s'.Stops := by
  refine (Bool.or_eq_true ..).mpr (((Bool.or_eq_true ..).mp h).imp (fun hc => ?_) fun hc => ?_)
  · exact (mgrStep_keepsAsking hs).service.trans hc
  · exact mgrStep_closeThread hc hs

/-! ## The count -/

theorem size_registered : s.registered.length = s.mgr.relays.size := by
  simp [registered, Dict.size, AList.keys, List.keys]

theorem Replies.togo {fs : List PortPortMessage} (h : Replies s fs s') :
    s'.mgrTogo ≤ s.mgr.recvq.length + s.mgr.relays.size + INBOUND_BATCH + 4 := by
  have hr := h.replied
  rcases hr.phase with hp | hp
  · simp only [mgrTogo, hp, hr.recvq, hr.relays, Nat.le_refl]
  · simp only [mgrTogo, hp, hr.relays]
    omega

theorem Processes.togo {msg : PortPortMessage} {results : List BindResult}
    (h : Processes s msg results s') :
    s'.mgrTogo ≤ s.mgr.recvq.length + s.mgr.relays.size + INBOUND_BATCH + 6 := by
  cases h with
  | @creates r =>
    have hle := Dict.size_set_le s.mgr.relays r.identifyingPort s.nrelays
    simp only [mgrTogo]
    omega
  | replies hr => exact hr.togo.trans (Nat.add_le_add_left (by decide) _)
  | _ =>
    simp only [mgrTogo, goto, withMgr, setRelay]
    omega

theorem drains_togo {m : Manager} {left : Nat} (hd : s.mgr.Drains left m) :
    (s.withMgr m).mgrTogo < left + s.mgr.relays.size + 3 := by
  cases hd with
  | sends hl _ hs =>
    obtain ⟨_, _, _, -, rfl⟩ := Manager.send_sent hs
    simp only [mgrTogo, withMgr]
    omega
  | _ =>
    simp only [mgrTogo, withMgr]
    omega

/-- Every step of a thread that is to close brings it nearer to its end, or is a turn of the receive
loop on a frame of another version. -/
theorem mgrStep_togo {a : ManagerAction} (h : s.Stops) (hspin : ¬ s.Spins)
    (hs : s.mgrStep a = some s') : s'.mgrTogo < s.mgrTogo := by
  cases mgrStep_moves hs with
  | leaves hp =>
    have hnew : (s.goto (.closing s.registered)).mgrTogo = s.registered.length + 1 := rfl
    show (s.goto (.closing s.registered)).mgrTogo < s.mgrTogo
    rw [hnew, size_registered]
    simp only [mgrTogo, hp, Nat.lt_succ_self]
  | selects hp hc =>
    unfold Stops at h
    cases hservice : s.closeService <;> simp_all
  | @clientIo mask events io hp hio =>
    have hmoved := s.mgr.handleRelayClient_moved mask io
    have hle : (s.mgr.handleRelayClient mask io).state.recvq.length ≤
        s.mgr.recvq.length + RECV_SIZE :=
      Manager.handleRelayClient_recvq_le ((Bool.and_eq_true ..).mp hio).2
    have htogo : s.mgrTogo = (RECV_SIZE + 1) * (events.length + 1) + s.mgr.recvq.length +
        s.mgr.relays.size + INBOUND_BATCH + 5 := by
      simp only [mgrTogo, hp, List.length_cons]
    rw [htogo, Nat.mul_succ]
    cases (s.mgr.handleRelayClient mask io).raised with
    | none =>
      simp only [mgrTogo, withMgr, hmoved.relays]
      omega
    | some e =>
      simp only [mgrTogo, withMgr]
      omega
  | wakeupRead hp =>
    simp only [mgrTogo, hp, withMgr, List.length_cons, Nat.mul_succ]
    omega
  | dispatched hp => simp [mgrTogo, hp, goto, withMgr]
  | emptied hp =>
    simp only [mgrTogo, hp, breakRecv, goto, withMgr]
    omega
  | takes hp _ hgrab hmsg =>
    have hle := hmsg.togo
    have hshrinks := deserialize_shrinks hgrab
    simp only [mgrTogo, hp, withMgr] at hle ⊢
    omega
  | @refuses e fs results hp hgrab =>
    have hbreaks : s.recvExcept e = s.breakRecv := by
      refine recvExcept_breaks ?_
      rw [loops_eq_violation]
      exact deserialize_ordinary (fun hbad => hspin ⟨hp, hbad⟩) e hgrab
    rw [hbreaks]
    simp only [mgrTogo, hp, breakRecv, goto, withMgr]
    omega
  | announces hp hr =>
    have hle := hr.togo
    simp only [mgrTogo, hp] at hle ⊢
    omega
  | @destroys port rid fs hp hj hr =>
    have hle := hr.togo
    have herase := Dict.size_erase_le s.mgr.relays port
    simp only [mgrTogo, hp, withMgr] at hle ⊢
    omega
  | drains hp =>
    have hlt := drains_togo (s.mgr.inboundTurn_drains ‹Nat›)
    simp only [mgrTogo, hp] at hlt ⊢
    exact hlt
  | closes hp => simp [mgrTogo, hp, goto, withMgr]
  | ends hp => simp [mgrTogo, hp, withMgr]

/-- A thread is joined only behind a request to close. -/
theorem mgrStep_joining {a : ManagerAction} {port : Int} {rid : Nat} (hs : s.mgrStep a = some s')
    (hp : s'.mgr.phase = .joining port rid) : (s'.relay rid).atomicClose = true := by
  have hreplies {t : Server} {fs : List PortPortMessage} (hr : Replies t fs s') : False := by
    rcases hr.replied.phase with hph | hph
    · cases hph.symm.trans hp
    · cases hph.symm.trans hp
  cases mgrStep_moves hs with
  | clientIo =>
    simp only [withMgr_mgr] at hp
    split at hp <;> cases hp
  | takes _ _ _ hmsg =>
    cases hmsg with
    | joins =>
      cases hp
      simp only [goto_relay, setRelay_relay, Function.update_self]
    | replies hr => exact (hreplies hr).elim
    | _ => cases hp
  | refuses _ _ hr => exact (hreplies hr).elim
  | announces _ hr => exact (hreplies hr).elim
  | destroys _ _ hr => exact (hreplies hr).elim
  | drains =>
    have hd := s.mgr.inboundTurn_drains ‹Nat›
    generalize s.mgr.inboundTurn ‹Nat› = m at hd hp
    cases hd with
    | _ => cases hp
  | _ => cases hp

/-- A frame of another version stays at the front of `recvq`. -/
theorem mgrStep_spins {a : ManagerAction} (h : s.Spins) (hs : s.mgrStep a = some s') :
    s'.Spins := by
  obtain ⟨hp, hbad⟩ := h
  obtain ⟨text, hraise⟩ := hbad.deserialize
  cases mgrStep_moves hs with
  | emptied _ hq =>
    obtain ⟨_, _, _, hb, -⟩ := hbad
    cases hq.symm.trans hb
  | takes _ _ hgrab => cases hgrab.symm.trans hraise
  | refuses _ hgrab hr =>
    cases hgrab.symm.trans hraise
    refine ⟨recvExcept_loops rfl, ?_⟩
    rw [hr.replied.recvq]
    exact hbad
  | _ => simp_all

/-- Every wait in `join` is for a registered relay that is to close. -/
structure JoinsClosing (s : Server) : Prop where
  table : TableSound s
  asked : ∀ port rid, s.mgr.phase = .joining port rid → (s.relay rid).atomicClose = true

theorem JoinsClosing.lt {port : Int} {rid : Nat} (h : JoinsClosing s)
    (hp : s.mgr.phase = .joining port rid) : rid < s.nrelays :=
  (h.table.key port rid (h.table.joining port rid hp)).1

end Server

namespace ManagerRun
open Server (JoinsClosing Stops Spins)
variable {s s' : ManagerRun} {e : Event}

theorem step_joinsClosing (h : JoinsClosing s.server) (hs : step s e = some s') :
    JoinsClosing s'.server where
  table := step_tableSound h.table hs
  asked port rid hp := by
    by_cases he : ∃ a, e = .thread a
    · obtain ⟨a, rfl⟩ := he
      obtain ⟨server, hserver, rfl⟩ := Option.map_eq_some_iff.mp hs
      exact Server.mgrStep_joining hserver hp
    · obtain ⟨_, _, hm⟩ := step_others (fun a ha => he ⟨a, ha⟩) hs
      rw [hm] at hp
      exact step_atomicClose (h.lt hp) (h.asked port rid hp) hs

theorem Reachable.joinsClosing {P : ManagerRun → Event → Prop} (h : Reachable P s) :
    JoinsClosing s.server := by
  apply h.invariant (J := fun s => JoinsClosing s.server)
  · rintro _ ⟨portRange, rfl⟩
    exact ⟨start_tableSound portRange, by simp [start]⟩
  · exact fun _ _ _ hI _ hs => step_joinsClosing hI hs

theorem step_stops (h : s.server.Stops) (hs : step s e = some s') : s'.server.Stops := by
  by_cases he : ∃ a, e = .thread a
  · obtain ⟨a, rfl⟩ := he
    obtain ⟨server, hserver, rfl⟩ := Option.map_eq_some_iff.mp hs
    exact h.mgrStep hserver
  · obtain ⟨_, _, hm⟩ := step_others (fun a ha => he ⟨a, ha⟩) hs
    refine (Bool.or_eq_true ..).mpr (((Bool.or_eq_true ..).mp h).imp (fun hc => ?_) fun hc => ?_)
    · exact step_closeService hc hs
    · rw [hm]
      exact hc

theorem toClose_of_joining {port : Int} {rid : Nat} (h : JoinsClosing s.server)
    (hp : s.server.mgr.phase = .joining port rid) : ToClose s rid :=
  (Bool.or_eq_true ..).mpr (.inr (h.asked port rid hp))

/-- Who has to take a step: in `join`, the thread of the relay. -/
def helper (s : ManagerRun) : Thread :=
  match s.server.mgr.phase with
  | .joining _ rid => if (s.server.relay rid).togo = 0 then .manager else .relay rid
  | _ => .manager

/-- The steps that the thread of the relay is waited for. -/
def waitsFor (s : ManagerRun) : Nat :=
  match s.server.mgr.phase with
  | .joining _ rid => (s.server.relay rid).togo
  | _ => 0

theorem helper_cases (s : ManagerRun) :
    s.helper = .manager ∧ s.waitsFor = 0 ∨
      ∃ port rid, s.server.mgr.phase = .joining port rid ∧ (s.server.relay rid).togo ≠ 0 ∧
        s.helper = .relay rid ∧ s.waitsFor = (s.server.relay rid).togo := by
  unfold helper waitsFor
  split
  · rename_i port rid hp
    split
    · exact .inl ⟨rfl, ‹_›⟩
    · exact .inr ⟨port, rid, hp, ‹_›, rfl, rfl⟩
  · exact .inl ⟨rfl, rfl⟩

theorem manager_enabled (hp : s.server.mgr.phase.ended = false) (hw : s.waitsFor = 0) :
    Transition.Enabled (Transition.Fires step) Thread.manager.Own s := by
  suffices h : ∃ a, (s.server.mgrStep a).isSome by
    obtain ⟨a, ha⟩ := h
    obtain ⟨server, hserver⟩ := Option.isSome_iff_exists.mp ha
    exact ⟨.thread a, { s with server }, trivial, Option.map_eq_some_iff.mpr ⟨server, hserver, rfl⟩⟩
  cases hph : s.server.mgr.phase with
  | top =>
    by_cases hc : s.server.Stops
    · have hc : (s.server.closeService || s.server.mgr.closeThread) = true := hc
      exact ⟨.turn, by simp only [Server.mgrStep, hph, hc, if_true, Option.isSome_some]⟩
    · simp only [Stops, Bool.or_eq_true, not_or, Bool.not_eq_true] at hc
      exact ⟨.select [], by simp [Server.mgrStep, hph, hc, Manager.selectable]⟩
  | dispatch events =>
    cases events with
    | nil => exact ⟨.turn, by simp [Server.mgrStep, hph]⟩
    | cons event events =>
      obtain ⟨key, mask⟩ := event
      cases key with
      | wakeup => exact ⟨.wakeupRead false, by simp [Server.mgrStep, hph]⟩
      | client =>
        exact ⟨.clientIo ⟨.error .blockingIo, .error .blockingIo⟩,
          by simp [Server.mgrStep, hph, sendAllowed, recvAllowed]⟩
  | recvLoop =>
    obtain ⟨results, server, hr, hturn⟩ := s.server.recvTurn_possible
    exact ⟨.recvTurn results, by simp [Server.mgrStep, hph, hr, hturn]⟩
  | creating rid => exact ⟨.turn, by simp [Server.mgrStep, hph]⟩
  | joining port rid =>
    have hj : s.server.joined rid = true := by
      rw [Server.joined_iff_togo]
      simpa only [waitsFor, hph] using hw
    exact ⟨.turn, by simp [Server.mgrStep, hph, hj]⟩
  | inboundLoop left => exact ⟨.turn, by simp [Server.mgrStep, hph]⟩
  | closing rids => cases rids <;> exact ⟨.turn, by simp [Server.mgrStep, hph]⟩
  | closed => simp [hph, ManagerPhase.ended] at hp
  | crashed x => simp [hph, ManagerPhase.ended] at hp

/-- The events of the other threads leave what the thread has to do, and what it waits for unless
they are steps of the thread that it waits for. -/
theorem step_others_togo (h : JoinsClosing s.server) (he : ∀ a, e ≠ .thread a)
    (hw : ¬ s.helper.Own e) (hs : step s e = some s') :
    s'.server.mgrTogo = s.server.mgrTogo ∧ s'.waitsFor = s.waitsFor ∧ s'.helper = s.helper := by
  obtain ⟨inboundData, wakeupPending, hm⟩ := step_others he hs
  refine ⟨by simp only [Server.mgrTogo, hm], ?_⟩
  have hph : s'.server.mgr.phase = s.server.mgr.phase := by rw [hm]
  unfold waitsFor helper
  rw [hph]
  cases hp : s.server.mgr.phase with
  | joining port rid =>
    have hlt := h.lt hp
    by_cases hown : (Thread.relay rid).Own e
    · have hlt := togo_own (toClose_of_joining h hp) hs hown
      have hhelper : s.helper = .relay rid := by
        unfold helper
        simp only [hp]
        exact if_neg (by omega)
      exact absurd (hhelper ▸ hown) hw
    · simp only [togo_other hlt hs hown, and_self]
  | _ => exact ⟨rfl, rfl⟩

theorem helper_enabled (h : JoinsClosing s.server) (hp : s.server.mgr.phase.ended = false) :
    Transition.Enabled (Transition.Fires step) s.helper.Own s := by
  rcases s.helper_cases with ⟨hhelper, hw⟩ | ⟨port, rid, hj, hw, hhelper, -⟩
  · exact hhelper ▸ manager_enabled hp hw
  · exact hhelper ▸ relay_enabled (h.lt hj) hw

/-- In `join` the thread itself takes no step. -/
theorem thread_helps {a : ManagerAction} (hs : step s (.thread a) = some s') :
    s.helper = .manager := by
  rcases s.helper_cases with ⟨hhelper, -⟩ | ⟨port, rid, hp, hw, -⟩
  · exact hhelper
  · obtain ⟨server, hserver, rfl⟩ := Option.map_eq_some_iff.mp hs
    cases Server.mgrStep_moves hserver with
    | destroys hp' hj =>
      cases hp'.symm.trans hp
      exact absurd (Server.joined_iff_togo.mp hj) hw
    | _ => simp_all

/-- The step of the thread that is waited for. -/
theorem relay_helps (h : JoinsClosing s.server) (he : ∀ a, e ≠ .thread a) (hown : s.helper.Own e)
    (hs : step s e = some s') :
    s'.server.mgrTogo = s.server.mgrTogo ∧ s'.waitsFor < s.waitsFor := by
  rcases s.helper_cases with ⟨hhelper, -⟩ | ⟨port, rid, hp, -, hhelper, hwaits⟩
  · rw [hhelper] at hown
    cases e with
    | thread a => exact absurd rfl (he a)
    | _ => cases hown
  · rw [hhelper] at hown
    have hlt := togo_own (toClose_of_joining h hp) hs hown
    obtain ⟨_, _, hm⟩ := step_others he hs
    have hwaits' : s'.waitsFor = (s'.server.relay rid).togo := by simp only [waitsFor, hm, hp]
    exact ⟨by simp only [Server.mgrTogo, hm], by omega⟩

/-- A thread that is to close ends, or spins. -/
theorem manager_progress : Transition.Progress (Transition.Fires step) Thread.Own
    (fun s => JoinsClosing s.server ∧ s.server.Stops)
    (fun s => s.server.mgr.phase.ended = true ∨ s.server.Spins)
    (fun s => toLex (s.server.mgrTogo, s.waitsFor)) helper where
  enabled s hK hg := helper_enabled hK.1 (Bool.eq_false_iff.mpr fun h => hg (.inl h))
  helps s e s' hK hg hs he := by
    refine .inr ⟨⟨step_joinsClosing hK.1 hs, step_stops hK.2 hs⟩, Prod.Lex.toLex_lt_toLex.mpr ?_⟩
    by_cases ht : ∃ a, e = .thread a
    · obtain ⟨a, rfl⟩ := ht
      obtain ⟨server, hserver, rfl⟩ := Option.map_eq_some_iff.mp hs
      exact .inl (Server.mgrStep_togo hK.2 (fun h => hg (.inr h)) hserver)
    · exact .inr (relay_helps hK.1 (fun a ha => ht ⟨a, ha⟩) he hs)
  waits s e s' hK _ hs he := by
    refine .inr ⟨⟨step_joinsClosing hK.1 hs, step_stops hK.2 hs⟩, .inr ?_⟩
    have ht (a : ManagerAction) (ha : e = .thread a) : False := by
      subst ha
      exact he (thread_helps hs ▸ trivial)
    obtain ⟨htogo, hwaits, hhelper⟩ := step_others_togo hK.1 (fun a ha => ht a ha) he hs
    exact ⟨by rw [htogo, hwaits], hhelper⟩

/-! ## Fair runs -/

theorem step_ended (h : s.server.mgr.phase.ended = true) (hs : step s e = some s') :
    s'.server.mgr.phase.ended = true := by
  rcases step_mgr hs with ⟨a, ha⟩ | ⟨_, _, hm⟩
  · cases (Server.mgrStep_running ha).symm.trans h
  · rw [hm]
    exact h

theorem step_spins (h : s.server.Spins) (hs : step s e = some s') : s'.server.Spins := by
  rcases step_mgr hs with ⟨a, ha⟩ | ⟨_, _, hm⟩
  · exact Server.mgrStep_spins h ha
  · rw [Spins, hm]
    exact h

/-- The thread makes no more relays. -/
def Settled (s : ManagerRun) : Prop := s.server.mgr.phase.ended = true ∨ s.server.Spins

theorem Settled.step (h : Settled s) (hs : ManagerRun.step s e = some s') :
    Settled s' ∧ s'.server.nrelays = s.server.nrelays := by
  refine ⟨h.imp (step_ended · hs) (step_spins · hs), ?_⟩
  by_cases he : ∃ a, e = .thread a
  · obtain ⟨a, rfl⟩ := he
    obtain ⟨server, hserver, rfl⟩ := Option.map_eq_some_iff.mp hs
    rcases h with hend | hspin
    · cases (Server.mgrStep_running hserver).symm.trans hend
    · cases Server.mgrStep_table hserver with
      | kept hn => exact hn
      | made _ _ _ hp =>
        have hspin' := step_spins hspin hs
        cases hspin'.1.symm.trans hp
  · exact step_nrelays (fun a ha => he ⟨a, ha⟩) hs

variable {ρ : Transition.Run (Transition.Fires step)} {i : ℕ}

theorem fair_joinsClosing (h0 : Reachable (fun _ _ => True) (ρ.state 0)) (i : ℕ) :
    JoinsClosing (ρ.state i).server :=
  Reachable.joinsClosing (ρ.reach (fun _ => trivial) h0 i)

/-- All threads have ended, and the service's close event is set. -/
def rests (s : ManagerRun) : Bool :=
  s.server.closeService && s.server.mgr.phase.ended &&
    (List.range s.server.nrelays).all fun rid => (s.server.relay rid).togo = 0

/-- A run that comes to rest where all threads have ended is fair. -/
theorem exists_fair_run {es : List Event}
    (h : (Transition.exec step (fun _ _ => true) s es).any rests = true) :
    ∃ ρ : Transition.Run (Transition.Fires step), ρ.state 0 = s ∧ ∀ p : Thread, ρ.Fair p.Own := by
  obtain ⟨t, hx, hrests⟩ := (Option.any_eq_true ..).mp h
  simp only [rests, Bool.and_eq_true, List.all_eq_true, List.mem_range, decide_eq_true_eq] at hrests
  obtain ⟨⟨hclose, hend⟩, hall⟩ := hrests
  have hidle : step t .shutdown = some t := by
    simp only [step, ← hclose]
  have hsteps : Transition.Steps (Transition.Fires step) (fun _ _ => True) s t :=
    .exec (fun _ _ _ => trivial) hx
  obtain ⟨ρ, hρ, n, hrest⟩ := Transition.Run.exists_of_steps hsteps hidle
  refine ⟨ρ, hρ, fun p => Transition.Run.fair_of_rest hrest ?_⟩
  rintro ⟨e, u, hown, hu⟩
  cases p with
  | manager =>
    cases e with
    | thread a =>
      obtain ⟨server, hserver, -⟩ := Option.map_eq_some_iff.mp hu
      cases (Server.mgrStep_running hserver).symm.trans hend
    | _ => cases hown
  | relay rid =>
    cases e with
    | relay i a =>
      obtain ⟨⟨server, puts⟩, hserver, -⟩ := Option.map_eq_some_iff.mp hu
      obtain ⟨hlt, -, r, hr, -⟩ := Server.relayStep_cases hserver
      cases (Relay.step_ended (hall i hlt) _ _).symm.trans hr
    | _ => cases hown

/-- **A management connection that is to close ends**, in every fair run, unless its receive loop
comes to a frame of another version: then it never ends. -/
theorem connection_ends_iff (h0 : Reachable (fun _ _ => True) (ρ.state 0))
    (hfair : ∀ p : Thread, ρ.Fair p.Own) (hstop : (ρ.state i).server.Stops) :
    (∃ j ≥ i, (ρ.state j).server.mgr.phase.ended = true) ↔
      ∀ j ≥ i, ¬ (ρ.state j).server.Spins := by
  have hexcl {s : ManagerRun} (hend : s.server.mgr.phase.ended = true) : ¬ s.server.Spins := by
    rintro ⟨hp, -⟩
    rw [hp] at hend
    cases hend
  constructor
  · rintro ⟨j, hj, hend⟩ k hk hspin
    rcases Nat.le_total j k with hjk | hkj
    · exact hexcl (ρ.keeps (J := fun s => s.server.mgr.phase.ended = true)
        (fun _ _ _ => step_ended) hend hjk) hspin
    · exact hexcl hend (ρ.keeps (J := fun s => s.server.Spins) (fun _ _ _ => step_spins) hspin hkj)
  · intro hnot
    obtain ⟨j, hj, hend | hspin⟩ := manager_progress.leadsTo hfair
      ⟨fair_joinsClosing h0 i, hstop⟩
    · exact ⟨j, hj, hend⟩
    · exact absurd hspin (hnot j hj)

/-- The client closes its end, and later on the service is shut down. -/
theorem connection_ends_eof : ∃ ρ : Transition.Run (Transition.Fires step),
    (ρ.state 0).server.mgr.closeThread = true ∧
    ((∃ j ≥ 0, (ρ.state j).server.mgr.phase.ended = true) ↔
      ∀ j ≥ 0, ¬ (ρ.state j).server.Spins) := by
  obtain ⟨s, hs, hstop, hrests⟩ : ∃ s, run (fun _ _ => true) [.thread (.select [(.client, .r)]),
        .thread (.clientIo ⟨.error .blockingIo, .ok []⟩)] = some s ∧
      s.server.mgr.closeThread = true ∧
      (Transition.exec step (fun _ _ => true) s [.thread .turn, .thread (.recvTurn []),
        .thread .turn, .thread .turn, .thread .turn, .shutdown]).any rests = true :=
    ⟨_, rfl, rfl, rfl⟩
  obtain ⟨ρ, rfl, hfair⟩ := exists_fair_run hrests
  exact ⟨ρ, hstop, connection_ends_iff (.of_run (fun _ _ _ => trivial) hs) hfair
    ((Bool.or_eq_true ..).mpr (.inr hstop))⟩

/-- The thread of a relay that is to close has ended. -/
structure Over (s : ManagerRun) (rid : Nat) : Prop where
  lt : rid < s.server.nrelays
  toClose : ToClose s rid
  togo : (s.server.relay rid).togo = 0

theorem Over.step {rid : Nat} (h : Over s rid) (hs : ManagerRun.step s e = some s') :
    Over s' rid := by
  refine ⟨h.lt.trans_le (step_aged hs).nrelays, h.toClose.step h.lt hs, ?_⟩
  by_cases he : (Thread.relay rid).Own e
  · have := togo_own h.toClose hs he
    have := h.togo
    omega
  · rw [togo_other h.lt hs he, h.togo]

/-- **All threads end with the service**: in every fair run behind the service's close event the
management thread has ended at some time, or spins on a frame of another version, the thread of
every relay it has made has ended, and from then on it makes no other. -/
theorem threads_end (h0 : Reachable (fun _ _ => True) (ρ.state 0))
    (hfair : ∀ p : Thread, ρ.Fair p.Own) (hclose : (ρ.state i).server.closeService = true) :
    ∃ j ≥ i, Settled (ρ.state j) ∧
      (∀ rid < (ρ.state j).server.nrelays, (ρ.state j).server.joined rid = true) ∧
      ∀ k ≥ j, (ρ.state k).server.nrelays = (ρ.state j).server.nrelays := by
  obtain ⟨j, hj, hsettled⟩ := manager_progress.leadsTo hfair
    ⟨fair_joinsClosing h0 i, (Bool.or_eq_true ..).mpr (.inl hclose)⟩
  have hclosed {k : ℕ} (hk : j ≤ k) : (ρ.state k).server.closeService = true :=
    ρ.keeps (J := fun s => s.server.closeService = true) (fun _ _ _ => step_closeService) hclose
      (hj.trans hk)
  have hkept {k : ℕ} (hk : j ≤ k) : Settled (ρ.state k) ∧
      (ρ.state k).server.nrelays = (ρ.state j).server.nrelays :=
    ρ.keeps (J := fun s => Settled s ∧ s.server.nrelays = (ρ.state j).server.nrelays)
      (fun _ _ _ h hs => ⟨(h.1.step hs).1, (h.1.step hs).2.trans h.2⟩) ⟨hsettled, rfl⟩ hk
  have htoClose {k rid : ℕ} (hk : j ≤ k) : ToClose (ρ.state k) rid :=
    (Bool.or_eq_true ..).mpr (.inl (hclosed hk))
  -- the threads of the first `n` relays have ended
  have hfirst (n : ℕ) (hn : n ≤ (ρ.state j).server.nrelays) :
      ∃ k ≥ j, ∀ rid < n, Over (ρ.state k) rid := by
    induction n with
    | zero => exact ⟨j, Nat.le_refl j, fun rid hrid => absurd hrid (Nat.not_lt_zero rid)⟩
    | succ n ih =>
      obtain ⟨k, hk, hall⟩ := ih (Nat.le_of_succ_le hn)
      have hlt {k : ℕ} (hk : j ≤ k) : n < (ρ.state k).server.nrelays := (hkept hk).2 ▸ hn
      obtain ⟨l, hl, hend⟩ := relay_progress.leadsTo hfair ⟨hlt hk, htoClose hk⟩
      have hjl := hk.trans hl
      refine ⟨l, hjl, fun rid hrid => ?_⟩
      rcases Nat.lt_succ_iff_lt_or_eq.mp hrid with hrid | rfl
      · exact ρ.keeps (J := (Over · rid)) (fun _ _ _ => Over.step) (hall rid hrid) hl
      · exact ⟨hlt hjl, htoClose hjl, hend⟩
  obtain ⟨k, hk, hall⟩ := hfirst _ (Nat.le_refl _)
  refine ⟨k, hj.trans hk, (hkept hk).1, fun rid hrid => ?_, fun l hl => ?_⟩
  · rw [Server.joined_iff_togo]
    exact (hall rid ((hkept hk).2 ▸ hrid)).togo
  · exact (hkept (hk.trans hl)).2.trans (hkept hk).2.symm

/-- The service is shut down while a relay is open. -/
theorem threads_end_one : ∃ ρ : Transition.Run (Transition.Fires step),
    (ρ.state 0).server.nrelays = 1 ∧ (ρ.state 0).server.closeService = true ∧
    ∃ j ≥ 0, Settled (ρ.state j) ∧
      (∀ rid < (ρ.state j).server.nrelays, (ρ.state j).server.joined rid = true) ∧
      ∀ k ≥ j, (ρ.state k).server.nrelays = (ρ.state j).server.nrelays := by
  obtain ⟨s, hs, hone, hclose, hrests⟩ : ∃ s,
      run (fun _ _ => true) (oneRelay ++ [.relay 0 (.listen (.ok ())), .shutdown]) = some s ∧
      s.server.nrelays = 1 ∧ s.server.closeService = true ∧
      (Transition.exec step (fun _ _ => true) s [.thread .turn, .thread .turn, .thread .turn,
        .relay 0 .turn, .relay 0 .turn]).any rests = true :=
    ⟨_, rfl, rfl, rfl, rfl⟩
  obtain ⟨ρ, rfl, hfair⟩ := exists_fair_run hrests
  exact ⟨ρ, hone, hclose, threads_end (.of_run (fun _ _ _ => trivial) hs) hfair hclose⟩

end ManagerRun
end PortPort
