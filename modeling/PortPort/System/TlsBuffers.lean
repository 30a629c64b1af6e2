import PortPort.Lib.Tls
import PortPort.Server.ManagerWakeup
import PortPort.Client.RemoteWakeup
import PortPort.System.Basic

/-! # The management connection as a TLS connection

`relayMgmt` and `create_remote_proxy` call `recv(4096)` once for each event that reports their
socket as readable. -/

namespace PortPort
open Tls (Buffers Endpoint Wired)
open System.Run (frame)

/-- The result of `recv` without the kind of the error. -/
def recvResult : Except OSError Bytes → Option Bytes
  | .ok data => some data
  | .error _ => none

theorem recv_of_result {recv : Except OSError Bytes} {data : Bytes}
    (h : recvResult recv = some data) : recv = .ok data := by
  cases recv with
  | ok => exact congrArg _ (Option.some.inj h)
  | error => cases h

namespace Manager

variable {m : Manager} {mask : Mask} {io : ClientIO}

/-- `handle_relay_client` comes to its call of `recv`. -/
def callsRecv (m : Manager) (mask : Mask) (io : ClientIO) : Bool :=
  mask.read && !(mask.write && m.sendq ≠ [] && (m.handleWrite io.send).raised.isSome)

theorem handleRelayClient_recvq {data : Bytes} (h : m.callsRecv mask io)
    (hio : recvResult io.recv = some data) :
    (m.handleRelayClient mask io).state.recvq = m.recvq ++ data := by
  have hrecv := recv_of_result hio
  simp only [callsRecv, Bool.and_eq_true, Bool.not_eq_true', Bool.and_eq_false_imp] at h
  unfold handleRelayClient
  by_cases hw : (mask.write && m.sendq ≠ []) = true
  · have hraised : (m.handleWrite io.send).raised = none := by
      simpa using h.2 (by simpa using hw)
    simp only [if_pos hw, hraised, h.1, and_self, if_true, hrecv, handleRead, handleWrite_recvq]
  · simp only [if_neg hw, h.1, and_self, if_true, hrecv, handleRead]

end Manager

/-- `relayMgmt` over its TLS connection. -/
def ManagerRun.tls : Endpoint ManagerRun ManagerRun.Event UInt8 where
  step := ManagerRun.step
  recv s e :=
    match e, s.server.mgr.phase with
    | .thread (.clientIo io), .dispatch ((.client, mask) :: _) =>
      if s.server.mgr.callsRecv mask io then some (recvResult io.recv) else none
    | _, _ => none
  readable
    | .thread (.select events) => events.any fun (key, mask) => key = .client && mask.read
    | _ => false
  recvq s := s.server.mgr.recvq
  size := RECV_SIZE
  appends := by
    intro s s' e data hs hr
    split at hr
    · rename_i io mask events hp
      rw [Option.ite_none_right_eq_some, Option.some.injEq] at hr
      obtain ⟨server, hserver, rfl⟩ := Option.map_eq_some_iff.mp hs
      simp only [Server.mgrStep, hp, Option.ite_none_right_eq_some, Option.some.injEq] at hserver
      obtain ⟨-, rfl⟩ := hserver
      exact Manager.handleRelayClient_recvq hr.1 hr.2
    · cases hr

namespace RemoteProxy

variable {c : RemoteProxy} {mask : Mask} {io : RelayIO}

/-- `handle_relay` comes to its call of `recv`. -/
def callsRecv (c : RemoteProxy) (mask : Mask) (io : RelayIO) : Bool :=
  mask.read && !(mask.write && c.sendq ≠ [] &&
    ((c.handleWrite io.send).returned || (c.handleWrite io.send).raised.isSome))

theorem handleRelay_recvq {data : Bytes} (h : c.callsRecv mask io = true)
    (hio : recvResult io.recv = some data) :
    (c.handleRelay mask io).state.recvq = c.recvq ++ data := by
  have hrecv := recv_of_result hio
  have hread (c : RemoteProxy) : (c.handleRead (.ok data)).state.recvq = c.recvq ++ data := by
    unfold handleRead
    simp only
    split
    · rename_i hd
      rw [hd, List.append_nil]
      rfl
    · rfl
  simp only [callsRecv, Bool.and_eq_true, Bool.not_eq_true', Bool.and_eq_false_imp] at h
  unfold handleRelay
  by_cases hw : (mask.write && c.sendq ≠ []) = true
  · have hout := h.2 (by simpa using hw)
    rw [Bool.or_eq_false_iff, Option.isSome_eq_false_iff, Option.isNone_iff_eq_none] at hout
    simp only [if_pos hw, hout.1, hout.2, h.1, and_self, if_true, hrecv, hread]
    rw [handleWrite_recvq]
  · simp only [if_neg hw, h.1, and_self, if_true, hrecv, hread]

end RemoteProxy

/-- `create_remote_proxy` over its TLS connection. -/
def RemoteRun.tls : Endpoint RemoteRun RemoteRun.Event UInt8 where
  step := RemoteRun.step
  recv s e :=
    match e, s.client.remote.phase with
    | .thread (.relayIo io), .dispatch ((.client, mask) :: _) =>
      if s.client.remote.callsRecv mask io then some (recvResult io.recv) else none
    | _, _ => none
  readable
    | .thread (.select events) => events.any fun (key, mask) => key = .client && mask.read
    | _ => false
  recvq s := s.client.remote.recvq
  size := RECV_SIZE
  appends := by
    intro s s' e data hs hr
    split at hr
    · rename_i io mask events hp
      rw [Option.ite_none_right_eq_some, Option.some.injEq] at hr
      obtain ⟨client, hclient, rfl⟩ := Option.map_eq_some_iff.mp hs
      simp only [Client.remoteStep, hp, Option.ite_none_right_eq_some,
        Option.some.injEq] at hclient
      obtain ⟨-, rfl⟩ := hclient
      exact RemoteProxy.handleRelay_recvq hr.1 hr.2
    · cases hr

/-! ## Bytes left in the TLS layer -/

/-- In every run in which the record that `recv` decrypts has at most 4096 bytes whenever it is the
last in the kernel, the TLS layer holds nothing when `relayMgmt` or `create_remote_proxy` is about
to call `select` and the kernel is empty: all that has arrived is in `recvq`. A step behind such a
run leaves bytes in the TLS layer, with an empty kernel, exactly if it fails the condition. -/
theorem nothing_stranded {m : Wired ManagerRun UInt8} {c : Wired RemoteRun UInt8}
    (hm : ManagerRun.tls.Reachable ManagerRun.Init m)
    (hc : RemoteRun.tls.Reachable RemoteRun.Init c) :
    ((m.own.Selecting → m.buffers.kernel = [] →
        m.buffers.internal = [] ∧ m.appended = m.arrived) ∧
      ∀ a m', ManagerRun.tls.wired m a = some m' →
        (m'.buffers.Drained ↔ ManagerRun.tls.Whole m a)) ∧
    (c.own.Selecting → c.buffers.kernel = [] →
        c.buffers.internal = [] ∧ c.appended = c.arrived) ∧
      ∀ a c', RemoteRun.tls.wired c a = some c' →
        (c'.buffers.Drained ↔ RemoteRun.tls.Whole c a) :=
  ⟨⟨fun _ => hm.appended, fun _ _ => Endpoint.drained_iff hm.clear⟩,
    fun _ => hc.appended, fun _ _ => Endpoint.drained_iff hc.clear⟩

/-- One record of the client has arrived, and the management thread has processed it. -/
theorem ManagerRun.tls_received : ∃ s, ManagerRun.tls.Reachable ManagerRun.Init s ∧
    s.own.Selecting ∧ s.buffers.kernel = [] ∧ s.arrived = frame .message [1] := by
  have hx : (Transition.exec ManagerRun.tls.wired (fun s _ => !s.buffers.strands RECV_SIZE)
      { own := ManagerRun.start none } [.arrive (.data (frame .message [1])),
        .own (.thread (.select [(.client, .r)])),
        .own (.thread (.clientIo { send := .ok 0, recv := .ok (frame .message [1]) })),
        .own (.thread .turn), .own (.thread (.recvTurn [])), .own (.thread (.recvTurn [])),
        .own (.thread .turn)]).map (fun s => (s.own.server.mgr.phase, s.own.server.closeService,
          s.own.server.mgr.closeThread, s.buffers.kernel.isEmpty, s.arrived)) =
      some (.top, false, false, true, frame .message [1]) := by
    decide +kernel
  obtain ⟨s, hs, hx⟩ := Option.map_eq_some_iff.mp hx
  simp only [Prod.mk.injEq] at hx
  obtain ⟨hp, hc, ht, hk, ha⟩ := hx
  exact ⟨s, .of_exec ⟨none, rfl⟩ hs, ⟨hp, hc, ht⟩, List.isEmpty_iff.mp hk, ha⟩

/-- The same of the server's record and the remote proxy thread. -/
theorem RemoteRun.tls_received : ∃ s, RemoteRun.tls.Reachable RemoteRun.Init s ∧
    s.own.Selecting ∧ s.buffers.kernel = [] ∧ s.arrived = frame .message [1] := by
  have hx : (Transition.exec RemoteRun.tls.wired (fun s _ => !s.buffers.strands RECV_SIZE)
      { own := RemoteRun.start 4000 } [.arrive (.data (frame .message [1])),
        .own (.thread (.select [(.client, .r)])),
        .own (.thread (.relayIo { send := .ok 0, recv := .ok (frame .message [1]) })),
        .own (.thread .turn), .own (.thread .turn), .own (.thread .turn),
        .own (.thread .turn)]).map (fun s => (s.own.client.remote.phase, s.own.client.close,
          s.buffers.kernel.isEmpty, s.arrived)) =
      some (.top, false, true, frame .message [1]) := by
    decide +kernel
  obtain ⟨s, hs, hx⟩ := Option.map_eq_some_iff.mp hx
  simp only [Prod.mk.injEq] at hx
  obtain ⟨hp, hc, hk, ha⟩ := hx
  exact ⟨s, .of_exec ⟨4000, rfl⟩ hs, ⟨hp, hc⟩, List.isEmpty_iff.mp hk, ha⟩

theorem nothing_stranded_received :
    ∃ (m : Wired ManagerRun UInt8) (c : Wired RemoteRun UInt8),
      m.arrived = frame .message [1] ∧ m.buffers.internal = [] ∧ m.appended = m.arrived ∧
        c.arrived = frame .message [1] ∧ c.buffers.internal = [] ∧ c.appended = c.arrived := by
  obtain ⟨m, hm, hsm, hkm, ham⟩ := ManagerRun.tls_received
  obtain ⟨c, hc, hsc, hkc, hac⟩ := RemoteRun.tls_received
  have h := nothing_stranded hm hc
  obtain ⟨him, hpm⟩ := h.1.1 hsm hkm
  obtain ⟨hic, hpc⟩ := h.2.1 hsc hkc
  exact ⟨m, c, ham, him, hpm, hac, hic, hpc⟩

/-! ## A frame of 4112 bytes -/

/-- Everything before the payload in a frame of 4096 bytes of data. -/
def fullHeader : Bytes := [64, 5, 1, 4, 10, 0, 0, 1, 19, 136, 15, 160, 0, 0, 16, 0]

theorem grabMsg_fullHeader {data : Bytes} (h : data.length < 4096) :
    grabMsg (fullHeader ++ data) =
      .error (.incompleteFrame "pending additional DATA bytes!") := by
  have hdata : ((slice (fullHeader ++ data) 16 (16 + 4096)).length : Int) ≠ 4096 := by
    have hle : (slice (fullHeader ++ data) 16 (16 + 4096)).length ≤ data.length := by
      simp [slice, fullHeader]
    omega
  unfold grabMsg PortPortMessage.deserialize
  rw [if_neg (by simp [fullHeader])]
  simp only [ok_bind, show index (fullHeader ++ data) 0 = .ok 64 from rfl,
    show index (fullHeader ++ data) 1 = .ok 5 from rfl,
    show index (fullHeader ++ data) 2 = .ok 1 from rfl]
  rw [if_neg (by decide), show PortPortMessageType.ofValue _ = .ok .data from rfl, ok_bind,
    if_neg (by decide)]
  have haddr : PortPortMessage.deserializeAddress (fullHeader ++ data) =
      .ok (.dotted 10 0 0 1, 8) := rfl
  have hport : unpack 2 (slice (fullHeader ++ data) 8 (8 + 2)) = .ok 5000 := rfl
  have hrelay : unpack 2 (slice (fullHeader ++ data) (8 + 2) (8 + 2 + 2)) = .ok 4000 := rfl
  have hlen : unpack 4 (slice (fullHeader ++ data) (8 + 2 + 2) (8 + 2 + 2 + 4)) = .ok 4096 := rfl
  have hkind : ¬ (PortPortMessageType.data = .newConnection ∨
      PortPortMessageType.data = .closeConnection) := by decide
  simp only [PortPortMessage.deserializeFields, PortPortMessage.deserializeConn, haddr, hport,
    hrelay, hlen, ok_bind, if_neg hkind, if_true]
  exact if_pos hdata

/-- The management thread reads the first bytes of a record, of which they are not a frame. -/
theorem ManagerRun.tls_oneRead {payload data rest : Bytes} {msg : String}
    (hrecv : Buffers.recv RECV_SIZE ⟨[.data payload], []⟩ = (some data, ⟨[], rest⟩))
    (hlen : data.length ≤ RECV_SIZE) (hne : data ≠ [])
    (hgrab : grabMsg data = .error (.incompleteFrame msg)) :
    ∃ s, Transition.Reach (Transition.Fires ManagerRun.tls.wired) (fun _ _ => True)
      (Endpoint.Begins ManagerRun.Init) s ∧ s.own.Selecting ∧ s.buffers = ⟨[], rest⟩ := by
  let server (m : Manager) : Server := { (ManagerRun.start none).server with mgr := m }
  let wired (m : Manager) (buffers : Buffers UInt8) (appended : Bytes) : Wired ManagerRun UInt8 :=
    { own := { server := server m }, buffers, arrived := payload, appended }
  let io : ClientIO := { send := .ok 0, recv := .ok data }
  have hread : (server { phase := .dispatch [(.client, .r)] }).mgrStep (.clientIo io) =
      some (server { phase := .dispatch [], recvq := data }) := by
    simp [server, io, Server.mgrStep, sendAllowed, recvAllowed, hlen, Server.withMgr,
      Manager.handleRelayClient, Manager.handleRead, Mask.r, hne]
  have hturn : (server { phase := .recvLoop, recvq := data }).mgrStep (.recvTurn []) =
      some (server { phase := .inboundLoop INBOUND_BATCH, recvq := data }) := by
    simp [server, Server.mgrStep, Server.recvTurn, hne, hgrab, Server.recvExcept,
      Server.breakRecv, Server.goto, Server.withMgr]
  let Reached := Transition.Reach (Transition.Fires ManagerRun.tls.wired) (fun _ _ => True)
    (Endpoint.Begins ManagerRun.Init)
  have hstep {s s' : Wired ManagerRun UInt8} (a) (h : Reached s)
      (hs : ManagerRun.tls.wired s a = some s') : Reached s' := .step h trivial hs
  have h₀ : Reached { own := ManagerRun.start none } :=
    .init ⟨⟨none, rfl⟩, fun _ => rfl, rfl, rfl⟩
  have h₁ : Reached (wired {} ⟨[.data payload], []⟩ []) := hstep (.arrive (.data payload)) h₀ rfl
  have h₂ : Reached (wired { phase := .dispatch [(.client, .r)] } ⟨[.data payload], []⟩ []) :=
    hstep (.own (.thread (.select [(.client, .r)]))) h₁ rfl
  have h₃ : Reached (wired { phase := .dispatch [], recvq := data } ⟨[], rest⟩ data) :=
    hstep (.own (.thread (.clientIo io))) h₂
      (Endpoint.wired_recv rfl rfl hrecv (congrArg (Option.map _) hread))
  have h₄ : Reached (wired { phase := .recvLoop, recvq := data } ⟨[], rest⟩ data) :=
    hstep (.own (.thread .turn)) h₃ rfl
  have h₅ : Reached
      (wired { phase := .inboundLoop INBOUND_BATCH, recvq := data } ⟨[], rest⟩ data) :=
    hstep (.own (.thread (.recvTurn []))) h₄
      (Endpoint.wired_own rfl rfl (congrArg (Option.map _) hturn))
  have h₆ : Reached (wired { recvq := data } ⟨[], rest⟩ data) := hstep (.own (.thread .turn)) h₅ rfl
  exact ⟨_, h₆, ⟨rfl, rfl, rfl⟩, rfl⟩

/-- A record with a frame of 4096 bytes of data leaves 16 bytes in the TLS layer. -/
theorem fullFrame_stranded : ¬ ∀ s, Transition.Reach (Transition.Fires ManagerRun.tls.wired)
    (fun _ _ => True) (Endpoint.Begins ManagerRun.Init) s → s.own.Selecting →
      s.buffers.kernel = [] → s.buffers.internal = [] := by
  intro h
  have hzeros : (List.replicate 4080 (0 : UInt8)).length = 4080 := List.length_replicate
  generalize List.replicate 4080 (0 : UInt8) = zeros at hzeros
  let data := fullHeader ++ zeros
  let rest : Bytes := List.replicate 16 0
  have hlen : data.length = RECV_SIZE := by
    rw [List.length_append, hzeros]
    rfl
  have hrecv : Buffers.recv RECV_SIZE ⟨[.data (data ++ rest)], []⟩ = (some data, ⟨[], rest⟩) := by
    have htake : Buffers.recv RECV_SIZE (⟨[.data (data ++ rest)], []⟩ : Buffers UInt8) =
      (some ((data ++ rest).take RECV_SIZE), ⟨[], (data ++ rest).drop RECV_SIZE⟩) := rfl
    rw [htake, ← hlen, List.take_left, List.drop_left]
  obtain ⟨s, hs, hsel, hb⟩ := ManagerRun.tls_oneRead hrecv hlen.le (List.cons_ne_nil _ _)
    (grabMsg_fullHeader (by omega))
  have hempty := h s hs hsel (by rw [hb])
  rw [hb] at hempty
  cases hempty

end PortPort
