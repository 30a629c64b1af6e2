import PortPort.Server.RecvLoop
import PortPort.System.Basic
import PortPort.System.Items

/-! # The two byte streams

Every byte between the two ends of a stream is in the receiving end's `recvq`, on the stream or in
the sending end's `sendq`, in this order, and the threads at the ends keep it that way. -/

namespace PortPort
open PortPortMessage Framing

theorem sentBy_append {sendq sendq' : Bytes} (h : sendq' <:+ sendq) :
    System.sentBy sendq sendq' ++ sendq' = sendq := by
  obtain ⟨l, rfl⟩ := h
  simp [System.sentBy]

theorem append_receivedBy {recvq recvq' : Bytes} (h : recvq <+: recvq') :
    recvq ++ System.receivedBy recvq recvq' = recvq' := by
  obtain ⟨l, rfl⟩ := h
  simp [System.receivedBy]

/-! ## Callbacks -/

/-- The same of a callback of the client, on its end of the connection. -/
structure RemoteProxy.Moved (c c' : RemoteProxy) : Prop where
  sendq : c'.sendq <:+ c.sendq
  recvq : c.recvq <+: c'.recvq
  toRemoteProxy : c'.toRemoteProxy = c.toRemoteProxy
  phase : c'.phase = c.phase

theorem RemoteProxy.Moved.refl (c : RemoteProxy) : RemoteProxy.Moved c c :=
  ⟨List.suffix_refl _, List.prefix_refl _, rfl, rfl⟩

theorem RemoteProxy.Moved.trans {c c' c'' : RemoteProxy} (h : RemoteProxy.Moved c c')
    (h' : RemoteProxy.Moved c' c'') : RemoteProxy.Moved c c'' :=
  ⟨h'.sendq.trans h.sendq, h.recvq.trans h'.recvq, h'.toRemoteProxy.trans h.toRemoteProxy,
    h'.phase.trans h.phase⟩

theorem RemoteProxy.handleWrite_moved (c : RemoteProxy) (send : Except OSError Nat) :
    RemoteProxy.Moved c (c.handleWrite send).state := by
  cases send with
  | ok len => exact ⟨List.drop_suffix .., List.prefix_refl _, rfl, rfl⟩
  | error e => cases e <;> exact ⟨List.suffix_refl _, List.prefix_refl _, rfl, rfl⟩

theorem RemoteProxy.handleRead_moved (c : RemoteProxy) (recv : Except OSError Bytes) :
    RemoteProxy.Moved c (c.handleRead recv).state := by
  cases recv with
  | ok data =>
    unfold RemoteProxy.handleRead
    simp only
    split
    · exact ⟨List.suffix_refl _, List.prefix_refl _, rfl, rfl⟩
    · exact ⟨List.suffix_refl _, List.prefix_append .., rfl, rfl⟩
  | error e => cases e <;> exact ⟨List.suffix_refl _, List.prefix_refl _, rfl, rfl⟩

theorem RemoteProxy.handleRelay_moved (c : RemoteProxy) (mask : Mask) (io : RelayIO) :
    RemoteProxy.Moved c (c.handleRelay mask io).state := by
  unfold RemoteProxy.handleRelay
  by_cases hw : (mask.write && c.sendq ≠ [])
  · simp only [if_pos hw]
    split
    · exact (c.handleWrite_moved _).trans (RemoteProxy.handleRead_moved ..)
    · exact c.handleWrite_moved _
  · simp only [if_neg hw]
    split
    · exact RemoteProxy.handleRead_moved ..
    · exact .refl c

/-! ## Frames put on a stream -/

theorem RemoteProxy.enqueueSendq_state (c : RemoteProxy) (data : Bytes) :
    (c.enqueueSendq data).state.sendq = c.sendq ++ data ∧
      (c.enqueueSendq data).state.recvq = c.recvq ∧
      (c.enqueueSendq data).state.toRemoteProxy = c.toRemoteProxy := by
  unfold RemoteProxy.enqueueSendq
  simp only
  split
  · split <;> exact ⟨rfl, rfl, rfl⟩
  · exact ⟨rfl, rfl, rfl⟩

theorem RemoteProxy.batchTurn_recvq (c : RemoteProxy) (left : Nat) :
    (c.batchTurn left).recvq = c.recvq := by
  unfold RemoteProxy.batchTurn
  split
  · rfl
  split
  · rfl
  · simp only
    split
    · rfl
    · split
      · rfl
      · exact (RemoteProxy.enqueueSendq_state _ _).2.1

/-! ## Frames taken off a stream -/

/-- What `grab_msg` takes off a buffer that begins a stream of frames is the first of them. -/
theorem grabMsg_stream {recvq rest recvq' : Bytes} {fs : List PortPortMessage}
    {msg : PortPortMessage} (hfs : ∀ m ∈ fs, WellFormed m)
    (hs : recvq ++ rest = fs.flatMap encode) (h : grabMsg recvq = .ok (msg, recvq')) :
    ∃ fs', fs = msg :: fs' ∧ recvq' ++ rest = fs'.flatMap encode := by
  have hauth : ¬ AuthFrame recvq := by
    rintro ⟨body, rfl⟩
    exact (avoids_encode hfs).here ⟨body ++ rest, by rw [← hs, List.append_assoc]⟩
  refine dec_of_append grabMsg?_encode frames_stable hfs hs hauth ?_
  exact grabMsg?_eq_some.mpr h

end PortPort
