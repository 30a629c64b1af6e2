import PortPort.Server.ManagerRun
import PortPort.Client.RemoteRun
import PortPort.System.Streams

/-! # Poisoned receive buffers

A buffer is dead when `deserialize` raises however it is continued. The receive loops see no more
than the exception: a version that is not supported keeps `relayMgmt` in its loop for good, and any
other exception makes either loop go on as it does on a frame that is cut short. Nothing ever takes
a dead buffer away. -/

namespace PortPort
open PortPortMessage

structure Dead (b : Bytes) : Prop where
  ne_nil : b ≠ []
  raises (x : Bytes) : ∃ e, deserialize (b ++ x) = .error e

theorem Dead.append {b : Bytes} (h : Dead b) (x : Bytes) : Dead (b ++ x) where
  ne_nil := by simp [h.ne_nil]
  raises y := by
    rw [List.append_assoc]
    exact h.raises (x ++ y)

theorem Dead.of_prefix {b b' : Bytes} (h : Dead b) (hb : b <+: b') : Dead b' := by
  obtain ⟨x, rfl⟩ := hb
  exact h.append x

theorem Dead.grabMsg {b : Bytes} (h : Dead b) : ∃ e, grabMsg b = .error e := by
  obtain ⟨e, he⟩ := h.raises []
  rw [List.append_nil] at he
  exact ⟨e, he⟩

/-- What follows the buffer never makes it begin with a header and the fields behind it. -/
theorem dead_of_ne {b : Bytes} (hb : b ≠ []) (h : ∀ x t body m r, b ++ x = headerBytes t ++ body →
    deserializeFields t 1 (b ++ x) ≠ .ok (m, r)) : Dead b where
  ne_nil := hb
  raises x := by
    cases hd : deserialize (b ++ x) with
    | error e => exact ⟨e, rfl⟩
    | ok y =>
      obtain ⟨t, body, hx, hf⟩ := deserialize_eq_ok.mp hd
      exact absurd hf (h x t body y.1 y.2 hx)

/-- The start byte is not that of a frame. -/
theorem dead_of_start {c : UInt8} {b : Bytes} (h : c ≠ 64) : Dead (c :: b) := by
  apply dead_of_ne (by simp)
  intro x t body m r hx
  simp only [headerBytes, List.cons_append, List.cons.injEq] at hx
  exact absurd hx.1 h

/-- The type byte is not that of a `PortPortMessageType`. -/
theorem dead_of_type {t : UInt8} {b : Bytes} {e : PyError}
    (h : PortPortMessageType.ofValue t.toNat = .error e) : Dead (64 :: t :: b) := by
  apply dead_of_ne (by simp)
  intro x t' body m r hx
  simp only [headerBytes, List.cons_append, List.cons.injEq] at hx
  rw [hx.2.1, UInt8.toNat_ofNat_of_lt' t'.value_lt, PortPortMessageType.ofValue_value] at h
  cases h

/-- The version is not the one supported. -/
theorem dead_of_version {t v : UInt8} {b : Bytes} (h : v ≠ 1) : Dead (64 :: t :: v :: b) := by
  apply dead_of_ne (by simp)
  intro x t' body m r hx
  simp only [headerBytes, List.cons_append, List.cons.injEq] at hx
  exact absurd hx.2.2.1 h

/-- The code of an ERROR frame is not that of a `PortPortErrorTypes`. -/
theorem dead_of_errorCode {c : UInt8} {b : Bytes} {e : PyError}
    (h : PortPortErrorTypes.ofValue c.toNat = .error e) : Dead (headerBytes .error ++ c :: b) := by
  apply dead_of_ne (by simp [headerBytes])
  intro x t body m r hx hf
  have ht : t = .error := by
    have hv := congrArg (·[1]?) hx
    cases t <;> simp_all [headerBytes, PortPortMessageType.value]
  subst ht
  have hauth : PortPortMessageType.error ≠ .auth := by simp
  obtain ⟨hm, -, -, -, hd⟩ := (deserializeFields_iff hauth).mp hf
  simp only [fieldBytes, hm, headerBytes, List.cons_append, List.nil_append, List.drop_succ_cons,
    List.drop_zero, List.cons.injEq] at hd
  rw [hd.1, UInt8.toNat_ofNat_of_lt' m.error.value_lt, PortPortErrorTypes.ofValue_value] at h
  cases h

/-- The address type of a frame that names a connection is neither 4 nor 6. -/
theorem dead_of_addressType {t : PortPortMessageType} {c : UInt8} {b : Bytes}
    (ht : t = .newConnection ∨ t = .closeConnection ∨ t = .data) (h4 : c ≠ 4) (h6 : c ≠ 6) :
    Dead (headerBytes t ++ c :: b) := by
  apply dead_of_ne (by simp [headerBytes])
  intro x t' body m r hx hf
  have ht' : t' = t := by
    have hv := congrArg (·[1]?) hx
    cases t <;> cases t' <;> simp_all [headerBytes, PortPortMessageType.value]
  subst ht'
  have hauth : t' ≠ .auth := by
    rintro rfl
    simp at ht
  obtain ⟨hm, -, -, -, hd⟩ := (deserializeFields_iff hauth).mp hf
  have hhead : [c] = (addressBytes m.addr).take 1 := by
    have hd := congrArg (List.take 1) hd
    rcases ht with rfl | rfl | rfl <;> cases ha : m.addr <;>
      simp_all [fieldBytes, headerBytes, addressBytes]
  cases ha : m.addr <;> simp_all [addressBytes]

/-! ## The management thread -/

namespace Server
open Relay (BindResult)
variable {s s' : Server}

/-- A turn of the receive loop on a dead buffer. -/
theorem recvTurn_dead (hd : Dead s.mgr.recvq) {results : List BindResult}
    (h : s.recvTurn results = some s') :
    ∃ e, grabMsg s.mgr.recvq = .error e ∧ s' = s.recvExcept e := by
  obtain ⟨e, he⟩ := hd.grabMsg
  unfold recvTurn at h
  rw [if_neg hd.ne_nil, he] at h
  cases h
  exact ⟨e, he, rfl⟩

/-- The management thread takes nothing off a dead buffer. -/
theorem mgrStep_dead (hd : Dead s.mgr.recvq) {a : ManagerAction} (h : s.mgrStep a = some s') :
    s.mgr.recvq <+: s'.mgr.recvq := by
  have hsame {s' : Server} (h : s'.mgr.recvq = s.mgr.recvq) : s.mgr.recvq <+: s'.mgr.recvq :=
    h ▸ List.prefix_refl _
  cases mgrStep_moves h with
  | clientIo => exact (s.mgr.handleRelayClient_moved ..).recvq
  | takes _ _ hgrab =>
    obtain ⟨e, he⟩ := hd.grabMsg
    cases he.symm.trans hgrab
  | refuses _ _ hr => exact hsame hr.replied.recvq
  | announces _ hr => exact hsame hr.replied.recvq
  | destroys _ _ hr => exact hsame hr.replied.recvq
  | @drains left =>
    have hdrains := s.mgr.inboundTurn_drains left
    generalize s.mgr.inboundTurn left = m at hdrains h ⊢
    cases hdrains with
    | sends hl hi hm =>
      obtain ⟨data, writeEnabled, mask, -, rfl⟩ := Manager.send_sent hm
      exact hsame rfl
    | _ => exact hsame rfl
  | _ => exact hsame rfl

end Server

namespace ManagerRun
variable {s s' : ManagerRun}

theorem step_dead {e : Event} (hd : Dead s.server.mgr.recvq) (h : step s e = some s') :
    s.server.mgr.recvq <+: s'.server.mgr.recvq := by
  rcases step_mgr h with ⟨a, ha⟩ | ⟨inboundData, wakeupPending, hm⟩
  · exact Server.mgrStep_dead hd ha
  · have hrecvq : s'.server.mgr.recvq = s.server.mgr.recvq := by rw [hm]
    exact hrecvq ▸ List.prefix_refl _

/-- Any number of steps, of whatever thread. -/
abbrev Steps : ManagerRun → ManagerRun → Prop :=
  Transition.Steps (Transition.Fires step) fun _ _ => True

/-- Steps taken while the thread is in its receive loop. -/
abbrev Pass : ManagerRun → ManagerRun → Prop :=
  Transition.Steps (Transition.Fires step) fun s _ => s.server.mgr.phase.draining = true

/-- The pass of the receive loop that begins here ends, with one ERROR frame more and the flag
that ends the thread. -/
def EndsConnection (s : ManagerRun) : Prop :=
  ∃ s', s.Pass s' ∧ s'.server.mgr.phase.draining = false ∧ s'.server.mgr.closeThread = true ∧
    ∃ err, s'.server.mgr.sendLog = s.server.mgr.sendLog ++ [{ msgType := .error, error := err }]

theorem dead_not_endsConnection (hd : Dead s.server.mgr.recvq)
    (hp : s.server.mgr.phase = .recvLoop) : ¬ s.EndsConnection := by
  rintro ⟨s', hpass, hleft, -, err, hlog⟩
  obtain ⟨e, he⟩ := hd.grabMsg
  cases hloops : Server.loops e with
  | true =>
    have hinv : s'.server.mgr.recvq = s.server.mgr.recvq ∧ s'.server.mgr.phase = .recvLoop := by
      apply hpass.invariant (J := fun s' => s'.server.mgr.recvq = s.server.mgr.recvq ∧
        s'.server.mgr.phase = .recvLoop) _ ⟨rfl, hp⟩
      rintro t event t' ⟨hrecvq, hphase⟩ - ht
      rcases step_mgr ht with ⟨a, ha⟩ | ⟨inboundData, wakeupPending, hm⟩
      · obtain ⟨results, -, hturn⟩ := Server.mgrStep_recvLoop hphase ha
        obtain ⟨e', he', ht'⟩ := Server.recvTurn_dead (hrecvq ▸ hd) hturn
        rw [hrecvq, he] at he'
        cases he'
        rw [ht']
        exact ⟨(Server.recvExcept_replied ..).recvq.trans hrecvq, Server.recvExcept_loops hloops⟩
      · rw [hm]
        exact ⟨hrecvq, hphase⟩
    rw [hinv.2] at hleft
    cases hleft
  | false =>
    have hinv : s'.server.mgr.recvq = s.server.mgr.recvq ∧
        s'.server.mgr.sendLog = s.server.mgr.sendLog ∧
        (s'.server.mgr.phase = .recvLoop ∨ s'.server.mgr.phase.draining = false) := by
      apply hpass.invariant (J := fun s' => s'.server.mgr.recvq = s.server.mgr.recvq ∧
        s'.server.mgr.sendLog = s.server.mgr.sendLog ∧
        (s'.server.mgr.phase = .recvLoop ∨ s'.server.mgr.phase.draining = false)) _
        ⟨rfl, rfl, .inl hp⟩
      rintro t event t' ⟨hrecvq, hlog, hphase⟩ hdrain ht
      rcases step_mgr ht with ⟨a, ha⟩ | ⟨inboundData, wakeupPending, hm⟩
      · have hphase := hphase.resolve_right (by simp [hdrain])
        obtain ⟨results, -, hturn⟩ := Server.mgrStep_recvLoop hphase ha
        obtain ⟨e', he', ht'⟩ := Server.recvTurn_dead (hrecvq ▸ hd) hturn
        rw [hrecvq, he] at he'
        cases he'
        rw [ht', Server.recvExcept_breaks hloops]
        exact ⟨hrecvq, hlog, .inr rfl⟩
      · rw [hm]
        exact ⟨hrecvq, hlog, hphase⟩
    rw [hinv.2.1] at hlog
    simp at hlog

theorem dead_kept {b : Bytes} (hb : Dead b) (h : b <+: s.server.mgr.recvq) (hs : s.Steps s') :
    b <+: s'.server.mgr.recvq := by
  apply hs.invariant (J := fun s' => b <+: s'.server.mgr.recvq) _ h
  exact fun t e t' ht _ hstep => ht.trans (step_dead (hb.of_prefix ht) hstep)

end ManagerRun

/-! ## The remote proxy thread -/

namespace Client
variable {c c' : Client}

/-- A turn of the receive loop on a dead buffer leaves the loop. -/
theorem recvTurn_dead (hd : Dead c.remote.recvq) :
    c.recvTurn = c.goto (.batch RemoteProxy.BOUNDED_BATCH) := by
  obtain ⟨e, he⟩ := hd.grabMsg
  unfold recvTurn
  rw [if_neg hd.ne_nil, he]

/-- The remote proxy thread takes nothing off a dead buffer. -/
theorem remoteStep_dead (hd : Dead c.remote.recvq) {a : RemoteAction}
    (h : c.remoteStep a = some c') : c.remote.recvq <+: c'.remote.recvq := by
  have hsame {c' : Client} (h : c'.remote.recvq = c.remote.recvq) :
      c.remote.recvq <+: c'.remote.recvq := h ▸ List.prefix_refl _
  cases remoteStep_moves h with
  | relayIo => exact (c.remote.handleRelay_moved ..).recvq
  | takes hp hgrab =>
    obtain ⟨e, he⟩ := hd.grabMsg
    cases he.symm.trans hgrab
  | batch => exact hsame (c.remote.batchTurn_recvq _)
  | _ => exact hsame rfl

end Client

namespace RemoteRun
variable {s s' : RemoteRun}

theorem step_dead {e : Event} (hd : Dead s.client.remote.recvq) (h : step s e = some s') :
    s.client.remote.recvq <+: s'.client.remote.recvq := by
  rcases step_cases h with ⟨a, -, ha, -⟩ | ⟨-, -, puts, hm, -⟩ | ⟨-, -, hm⟩ | ⟨-, rfl⟩
  · exact Client.remoteStep_dead hd ha
  · have hrecvq : s'.client.remote.recvq = s.client.remote.recvq := by rw [hm]
    exact hrecvq ▸ List.prefix_refl _
  · have hrecvq : s'.client.remote.recvq = s.client.remote.recvq := by rw [hm]
    exact hrecvq ▸ List.prefix_refl _
  · exact List.prefix_refl _

/-- Any number of steps, of whatever thread. -/
abbrev Steps : RemoteRun → RemoteRun → Prop :=
  Transition.Steps (Transition.Fires step) fun _ _ => True

/-- Steps taken while the thread is in its receive loop, in which no other thread sets the close
event. -/
abbrev Pass : RemoteRun → RemoteRun → Prop :=
  Transition.Steps (Transition.Fires step) fun s e =>
    s.client.remote.phase = .recvLoop ∧ e ≠ .shutdown

/-- The pass of the receive loop that begins here ends, with the close event set. -/
def EndsConnection (s : RemoteRun) : Prop :=
  ∃ s', s.Pass s' ∧ s'.client.remote.phase ≠ .recvLoop ∧ s'.client.close = true

theorem dead_not_endsConnection (hd : Dead s.client.remote.recvq)
    (hclose : s.client.close = false) : ¬ s.EndsConnection := by
  rintro ⟨s', hpass, -, hclose'⟩
  have hinv : Dead s'.client.remote.recvq ∧ s'.client.close = false := by
    apply hpass.invariant (J := fun s => Dead s.client.remote.recvq ∧ s.client.close = false) _
      ⟨hd, hclose⟩
    rintro t e t' ⟨hdead, hopen⟩ ⟨hphase, he⟩ ht
    refine ⟨hdead.of_prefix (step_dead hdead ht), ?_⟩
    rcases step_cases ht with ⟨a, -, ha, -⟩ | ⟨-, hc, -⟩ | ⟨-, hc, -⟩ | ⟨hs, -⟩
    · unfold Client.remoteStep at ha
      rw [hphase] at ha
      cases a with
      | turn =>
        rw [← Option.some.inj ha, Client.recvTurn_dead hdead]
        exact hopen
      | _ => cases ha
    · rw [hc, hopen]
    · rw [hc, hopen]
    · exact absurd hs he
  cases hclose'.symm.trans hinv.2

theorem dead_kept {b : Bytes} (hb : Dead b) (h : b <+: s.client.remote.recvq) (hs : s.Steps s') :
    b <+: s'.client.remote.recvq := by
  apply hs.invariant (J := fun s' => b <+: s'.client.remote.recvq) _ h
  exact fun t e t' ht _ hstep => ht.trans (step_dead (hb.of_prefix ht) hstep)

end RemoteRun

/-- **A poisoned buffer ends no connection**: whatever makes the buffer dead, the pass of the
receive loop of `relayMgmt` that meets it does not end with one ERROR frame and the flag that ends
the thread, that of `create_remote_proxy` does not set the close event, and both keep the buffer
and what they append to it for good. -/
theorem dead_endsNothing {b : Bytes} (hb : Dead b) :
    (∀ s : ManagerRun, s.server.mgr.phase = .recvLoop → s.server.mgr.recvq = b →
      ¬ s.EndsConnection ∧ ∀ s', s.Steps s' → b <+: s'.server.mgr.recvq) ∧
    ∀ s : RemoteRun, s.client.remote.phase = .recvLoop → s.client.remote.recvq = b →
      s.client.close = false →
      ¬ s.EndsConnection ∧ ∀ s', s.Steps s' → b <+: s'.client.remote.recvq := by
  constructor
  · rintro s hp rfl
    exact ⟨s.dead_not_endsConnection hb hp, fun s' hs => s.dead_kept hb (List.prefix_refl _) hs⟩
  · rintro s - rfl hclose
    exact ⟨s.dead_not_endsConnection hb hclose, fun s' hs => s.dead_kept hb (List.prefix_refl _) hs⟩

/-- The management thread, about to take messages off this buffer. -/
def ManagerRun.holding (b : Bytes) : ManagerRun :=
  { server := { (ManagerRun.start none).server with mgr := { phase := .recvLoop, recvq := b } } }

/-- The remote proxy thread, about to take messages off this buffer. -/
def RemoteRun.holding (b : Bytes) : RemoteRun :=
  { client := { remote := { phase := .recvLoop, recvq := b }, proxy := { remotePort := 4000 } } }

/-- A CREATE_RELAY frame of version 2. -/
theorem dead_endsNothing_version : Dead [64, 1, 2] ∧
    ¬ (ManagerRun.holding [64, 1, 2]).EndsConnection ∧
    ¬ (RemoteRun.holding [64, 1, 2]).EndsConnection := by
  have hb : Dead [64, 1, 2] := dead_of_version (by decide)
  exact ⟨hb, ((dead_endsNothing hb).1 (.holding [64, 1, 2]) rfl rfl).1,
    ((dead_endsNothing hb).2 (.holding [64, 1, 2]) rfl rfl rfl).1⟩

/-- A byte that starts no frame. -/
theorem badStart_endsNothing : ¬ ∀ b, Dead b → (ManagerRun.holding b).EndsConnection ∧
    (RemoteRun.holding b).EndsConnection := by
  intro h
  have hb : Dead [0] := dead_of_start (by decide)
  exact ManagerRun.dead_not_endsConnection (s := .holding [0]) hb rfl (h [0] hb).1

end PortPort
