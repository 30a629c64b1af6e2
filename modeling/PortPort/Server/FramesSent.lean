import PortPort.Server.ManagerMoves

/-! # What the management thread sends

All bytes that it appends to `sendq` are whole frames. None is AUTH_SUCCESS, and OPEN_RELAY is sent
only behind the start of a relay. -/

namespace PortPort
open PortPortMessage
open Relay (BindResult)

namespace Manager
variable {m m' : Manager} {msg : PortPortMessage}

theorem send_frame (hv : msg.version = 1) (hc : msg.carried = msg) (ha : msg.msgType ≠ .auth)
    (h : m.send msg = .ok m') : WellFormed msg ∧ m'.sendq = m.sendq ++ encode msg := by
  unfold Manager.send at h
  split at h
  · rename_i data hser
    obtain ⟨hfits, rfl⟩ := (serialize_iff hv).mp hser
    obtain ⟨writeEnabled, mask, hadd⟩ := m.addToSendq_eq (headerBytes msg.msgType ++ msg.fieldBytes)
    cases h
    exact ⟨⟨hv, hfits, hc, ha⟩, by rw [hadd]; rfl⟩
  · cases h

end Manager

namespace Server
variable {s s' : Server}

/-- The step has appended these frames to `sendq`. -/
def Sent (s : Server) (fs : List PortPortMessage) (s' : Server) : Prop :=
  (∀ f ∈ fs, WellFormed f) ∧ s'.mgr.sendq = s.mgr.sendq ++ fs.flatMap encode

theorem Sent.none (h : s'.mgr.sendq = s.mgr.sendq) : Sent s [] s' :=
  ⟨List.forall_mem_nil _, by rw [h]; exact (List.append_nil _).symm⟩

theorem Sent.one {m : Manager} {msg : PortPortMessage} (hv : msg.version = 1)
    (hc : msg.carried = msg) (ha : msg.msgType ≠ .auth) (h : s.mgr.send msg = .ok m)
    (hs : s'.mgr.sendq = m.sendq) : Sent s [msg] s' := by
  obtain ⟨hwf, hsendq⟩ := Manager.send_frame hv hc ha h
  refine ⟨fun f hf => List.mem_singleton.mp hf ▸ hwf, ?_⟩
  rw [hs, hsendq, List.flatMap_singleton]

/-- Errors are all that these frames are. -/
def Errors (fs : List PortPortMessage) : Prop := ∀ f ∈ fs, f.msgType = .error

theorem Errors.nil : Errors [] := List.forall_mem_nil _

theorem Errors.one (error : PortPortErrorTypes) : Errors [{ msgType := .error, error }] :=
  fun _ hf => List.mem_singleton.mp hf ▸ rfl

theorem recvExcept_sent (s : Server) (e : PyError) :
    ∃ fs, Sent s fs (s.recvExcept e) ∧ Errors fs := by
  rcases recvExcept_cases s e with ⟨err, m, hm, h⟩ | ⟨h, -⟩
  · exact ⟨_, .one rfl rfl (by simp) hm (by rw [h]; rfl), .one err⟩
  · exact ⟨[], .none (by rw [h]; rfl), .nil⟩

/-- A reply is sent, or its serialization fails and an `except` clause takes over. -/
theorem reply_sent (s : Server) (msg : PortPortMessage) (hv : msg.version = 1)
    (hc : msg.carried = msg) (ha : msg.msgType ≠ .auth) :
    ∃ fs, Sent s fs (s.reply msg) ∧ ∀ f ∈ fs, f = msg ∨ f.msgType = .error := by
  unfold reply
  split
  · rename_i hm
    exact ⟨_, .one hv hc ha hm rfl, fun f hf => .inl (List.mem_singleton.mp hf)⟩
  · obtain ⟨fs, h, hfs⟩ := recvExcept_sent s ‹_›
    exact ⟨fs, h, fun f hf => .inr (hfs f hf)⟩

theorem replyError_sent (s : Server) (error : PortPortErrorTypes) :
    ∃ fs, Sent s fs (s.reply { msgType := .error, error }) ∧ Errors fs := by
  obtain ⟨fs, h, hfs⟩ := reply_sent s { msgType := .error, error } rfl rfl (by simp)
  exact ⟨fs, h, fun f hf => (hfs f hf).elim (fun he => by rw [he]) id⟩

theorem processMsg_sent {msg : PortPortMessage} {results : List BindResult}
    (h : s.processMsg msg results = some s') : ∃ fs, Sent s fs s' ∧ Errors fs := by
  unfold processMsg at h
  split at h
  · split at h <;> cases h
    · exact ⟨[], .none rfl, .nil⟩
    · exact replyError_sent ..
    · exact recvExcept_sent ..
  · split at h <;> cases h
    · exact ⟨[], .none rfl, .nil⟩
    · exact recvExcept_sent ..
  · split at h <;> cases h
    · exact ⟨[], .none rfl, .nil⟩
    · exact ⟨[], .none rfl, .nil⟩
  · split at h <;> cases h
    · exact ⟨[], .none rfl, .nil⟩
    · exact replyError_sent ..
  · cases h
    exact ⟨[], .none rfl, .nil⟩

theorem recvTurn_sent {results : List BindResult} (h : s.recvTurn results = some s') :
    ∃ fs, Sent s fs s' ∧ Errors fs := by
  unfold Server.recvTurn at h
  split at h
  · cases h
    exact ⟨[], .none rfl, .nil⟩
  split at h
  · obtain ⟨fs, hs, hfs⟩ := processMsg_sent h
    exact ⟨fs, ⟨hs.1, hs.2⟩, hfs⟩
  · cases h
    exact recvExcept_sent ..

theorem announce_sent (s : Server) (rid : Nat) : ∃ fs, Sent s fs (s.announce rid) ∧
    ∀ f ∈ fs, f.msgType = .openRelay ∨ f.msgType = .error := by
  unfold announce
  split
  · obtain ⟨fs, h, hfs⟩ := reply_sent s { msgType := .openRelay, relayPort := _ } rfl rfl
      (by simp)
    exact ⟨fs, h, fun f hf => (hfs f hf).imp_left fun he => by rw [he]⟩
  · obtain ⟨fs, h, hfs⟩ := recvExcept_sent s ‹_›
    exact ⟨fs, h, fun f hf => .inr (hfs f hf)⟩

theorem destroyed_sent (s : Server) (port : Int) : ∃ fs, Sent s fs (s.destroyed port) ∧
    ∀ f ∈ fs, f.msgType = .destroyRelay ∨ f.msgType = .error := by
  obtain ⟨fs, h, hfs⟩ := reply_sent
    (s.withMgr { s.mgr with relays := s.mgr.relays.erase port })
    { msgType := .destroyRelay, relayPort := port } rfl rfl (by simp)
  exact ⟨fs, h, fun f hf => (hfs f hf).imp_left fun he => by rw [he]⟩

theorem inboundTurn_sent (s : Server) (left : Nat) :
    ∃ fs, Sent s fs (s.withMgr (s.mgr.inboundTurn left)) ∧
      ∀ f ∈ fs, f.msgType ≠ .authSuccess ∧ f.msgType ≠ .openRelay := by
  have hdrains := s.mgr.inboundTurn_drains left
  generalize s.mgr.inboundTurn left = m at hdrains
  cases hdrains with
  | ends | fails => exact ⟨[], .none rfl, List.forall_mem_nil _⟩
  | @sends q items m hl hi hm =>
    obtain ⟨kind, addr, port, data, relayPort⟩ := q
    have hframe : Sent s [Manager.frameOf ⟨kind, addr, port, data, relayPort⟩]
        (s.withMgr { m with phase := .inboundLoop (left - 1) }) := by
      cases kind <;> exact Sent.one (s := s.withMgr { s.mgr with inboundData := items }) rfl rfl
        (by simp [Manager.frameOf]) hm rfl
    refine ⟨_, hframe, fun f hf => ?_⟩
    rw [List.mem_singleton.mp hf]
    cases kind <;> simp [Manager.frameOf]

/-- A step of the thread that is no callback of the management socket. -/
theorem mgrStep_sent {a : ManagerAction} (hio : ∀ io, a ≠ .clientIo io)
    (h : s.mgrStep a = some s') : ∃ fs, Sent s fs s' ∧ ∀ f ∈ fs, f.msgType ≠ .authSuccess ∧
      (f.msgType = .openRelay → ∃ rid, s.mgr.phase = .creating rid) := by
  have herrors (hs : ∃ fs, Sent s fs s' ∧ Errors fs) : ∃ fs, Sent s fs s' ∧
      ∀ f ∈ fs, f.msgType ≠ .authSuccess ∧
        (f.msgType = .openRelay → ∃ rid, s.mgr.phase = .creating rid) := by
    obtain ⟨fs, hs, hfs⟩ := hs
    exact ⟨fs, hs, fun f hf => by simp [hfs f hf]⟩
  cases mgrStep_moves h with
  | clientIo => exact absurd rfl (hio _)
  | emptied | takes | refuses => exact herrors (recvTurn_sent (mgrStep_recvTurn h).2.2)
  | @announces rid fs hp =>
    obtain ⟨fs, hs, hfs⟩ := announce_sent s rid
    refine ⟨fs, hs, fun f hf => ⟨?_, fun _ => ⟨rid, hp⟩⟩⟩
    rcases hfs f hf with ht | ht <;> simp [ht]
  | @destroys p rid fs =>
    obtain ⟨fs, hs, hfs⟩ := destroyed_sent s p
    refine ⟨fs, hs, fun f hf => ?_⟩
    rcases hfs f hf with ht | ht <;> simp [ht]
  | @drains left =>
    obtain ⟨fs, hs, hfs⟩ := inboundTurn_sent s left
    exact ⟨fs, hs, fun f hf => ⟨(hfs f hf).1, fun ht => absurd ht (hfs f hf).2⟩⟩
  | _ => exact ⟨[], .none rfl, List.forall_mem_nil _⟩

end Server
end PortPort
