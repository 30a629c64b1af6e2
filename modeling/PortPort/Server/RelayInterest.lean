import PortPort.Server.ConnMoves
import PortPort.Server.RelayRun

/-! # Write interest of the relay's connections -/

namespace PortPort
open Function (update)
open Relay (RelayAction)

namespace Relay
variable {r r' : Relay} {a : RelayAction}

/-- A registered socket is registered for write events exactly while the `write_enabled` of its
connection is set, which it is while bytes wait in `sendq`. -/
structure Armed (r : Relay) : Prop where
  mask : r.selector n = some m → m = if (r.conns n).writeEnabled then .rw else .r
  flag : (r.conns n).sendq ≠ [] → (r.conns n).writeEnabled = true

/-- Both halves change together on one connection, and stay as they are on the others. -/
theorem Armed.of_update (h : r.Armed) {n : Nat} {c : RelayConnection}
    (hc : r'.conns = update r.conns n c) (hother : ∀ k ≠ n, r'.selector k = r.selector k)
    (hmask : ∀ m, r'.selector n = some m → m = if c.writeEnabled then .rw else .r)
    (hflag : c.sendq ≠ [] → c.writeEnabled = true) : r'.Armed := by
  refine ⟨fun {k m} hm => ?_, fun {k} hk => ?_⟩
  · by_cases hkn : k = n
    · subst hkn
      rw [hc, Function.update_self]
      exact hmask m hm
    · rw [hc, Function.update_of_ne hkn]
      exact h.mask ((hother k hkn).symm.trans hm)
  · by_cases hkn : k = n
    · subst hkn
      rw [hc, Function.update_self] at hk ⊢
      exact hflag hk
    · rw [hc, Function.update_of_ne hkn] at hk ⊢
      exact h.flag hk

theorem Armed.setConn (h : r.Armed) {n : Nat} {c : RelayConnection}
    (hw : c.writeEnabled = (r.conns n).writeEnabled) (hq : c.sendq = (r.conns n).sendq) :
    (r.setConn n c).Armed := by
  refine h.of_update rfl (fun k _ => rfl) ?_ ?_
  · rw [hw]
    exact fun m => h.mask
  · rw [hw, hq]
    exact h.flag

theorem Armed.flushed (h : r.Armed) (sock con len : Nat) : (r.flushed sock con len).Armed := by
  let r₁ := r.setConn sock
    { r.conns sock with sck := (r.conns sock).sck.send ((r.conns con).sendq.take len) }
  have h₁ : r₁.Armed := h.setConn rfl rfl
  let sendq := (r₁.conns con).sendq.drop len
  have hsel : (r.flushed sock con len).selector =
    if sendq = [] then update r.selector con (some .r) else r.selector := rfl
  apply h₁.of_update (c := { r₁.conns con with
    sendq, writeEnabled := (r₁.conns con).writeEnabled && sendq ≠ [] }) rfl
  · intro k hk
    rw [hsel]
    split
    · exact Function.update_of_ne hk ..
    · rfl
  · intro m hm
    rw [hsel] at hm
    by_cases hq : sendq = []
    · rw [if_pos hq, Function.update_self] at hm
      simp [hq, ← Option.some.inj hm]
    · rw [if_neg hq] at hm
      simpa [hq] using h₁.mask hm
  · intro hq
    have hwaiting : (r₁.conns con).sendq ≠ [] := fun hnil => hq (by simp [sendq, hnil])
    simp only [h₁.flag hwaiting, Bool.true_and, decide_eq_true_eq]
    exact hq

theorem Armed.pushed (h : r.Armed) (n : Nat) (data : Bytes) : (r.pushed n data).Armed := by
  have hsel : (r.pushed n data).selector =
    if (r.conns n).writeEnabled then r.selector else update r.selector n (some .rw) := rfl
  refine h.of_update rfl ?_ ?_ ?_
  · intro k hk
    rw [hsel]
    split
    · rfl
    · exact Function.update_of_ne hk ..
  · intro m hm
    rw [hsel] at hm
    by_cases hw : (r.conns n).writeEnabled = true
    · rw [if_pos hw] at hm
      simpa [hw] using h.mask hm
    · rw [if_neg hw, Function.update_self] at hm
      exact (Option.some.inj hm).symm
  · exact fun _ => rfl

theorem Change.armed (hr : r.Armed) (h : Change r a r') : r'.Armed := by
  induction h with
  | refl => exact hr
  | accept addr ha hport =>
    apply hr.of_update (c := { peer := addr }) rfl
    · exact fun k hk => Function.update_of_ne hk ..
    · intro m hm
      have hself : some Mask.r = some m :=
        (Function.update_self r.nconns _ r.selector).symm.trans hm
      exact (Option.some.inj hself).symm
    · exact nofun
  | goto phase sck outbound atomicClose wakeupPending hs h ih => exact { ih with }
  | recv n data h ih => exact ih.setConn rfl rfl
  | flush sock con len hl h ih => exact ih.flushed sock con len
  | push m rest n hp ho hk hl hr h ih => exact ih.pushed n m.data
  | @remove r' addr n hl h ih =>
    apply ih.of_update (c := { r'.conns n with sck := (r'.conns n).sck.close }) rfl
    · exact fun k hk => Function.update_of_ne hk ..
    · intro m hm
      have hsel : (r'.removed addr n).selector = update r'.selector n none := rfl
      rw [hsel, Function.update_self] at hm
      cases hm
    · exact ih.flag

/-- The drain does not append the payload of an empty DATA frame to an empty `sendq`. -/
def pushesBytes (r : Relay) : Bool :=
  match r.phase, r.outbound with
  | .drain, m :: _ =>
    match m.kind, r.connectionTable.lookup m.peer with
    | .message, some n => !m.data.isEmpty || !(r.conns n).sendq.isEmpty
    | _, _ => true
  | _, _ => true

theorem pushesBytes_apply {m : QueuedRelayMessage} {rest : List QueuedRelayMessage} {n : Nat}
    (h : r.pushesBytes = true) (hp : r.phase = .drain) (ho : r.outbound = m :: rest)
    (hk : m.kind = .message) (hl : r.connectionTable.lookup m.peer = some n) :
    m.data ≠ [] ∨ (r.conns n).sendq ≠ [] := by
  simpa [pushesBytes, hp, ho, hk, hl] using h

theorem Flagged.of_update (h : r.Flagged) {n : Nat} {c : RelayConnection}
    (hr : r'.conns = update r.conns n c) (hc : c.writeEnabled = true ↔ c.sendq ≠ []) :
    r'.Flagged := by
  intro k
  rw [hr]
  by_cases hk : k = n
  · subst hk
    rwa [Function.update_self]
  · rw [Function.update_of_ne hk]
    exact h k

theorem Flagged.flushed (h : r.Flagged) (sock con len : Nat) :
    (r.flushed sock con len).Flagged := by
  let r₁ := r.setConn sock
    { r.conns sock with sck := (r.conns sock).sck.send ((r.conns con).sendq.take len) }
  have h₁ : r₁.Flagged := h.of_update rfl (h sock)
  exact h₁.of_update rfl (OwnMoves.flagged (.drain len .refl) (h₁ con))

theorem Change.flagged (hf : r.Flagged) (hpush : r.pushesBytes = true) (h : Change r a r') :
    r'.Flagged := by
  induction h with
  | refl => exact hf
  | accept addr ha hport => exact hf.of_update (c := { peer := addr }) rfl (by simp)
  | goto phase sck outbound atomicClose wakeupPending hs h ih => exact ih
  | @recv r' n data h ih => exact ih.of_update rfl (ih n)
  | flush sock con len hl h ih => exact ih.flushed sock con len
  | push m rest n hp ho hk hl hr h ih =>
    refine ih.of_update rfl ?_
    have hne := pushesBytes_apply hpush hp ho hk (hr.2 ▸ hl)
    rw [← hr.1] at hne
    rcases hne with hne | hne <;> simp [hne]
  | @remove r' addr n hl h ih => exact ih.of_update rfl (ih n)

end Relay

namespace RelayRun

theorem Reachable.armed {P : RelayRun → Event → Prop} {s : RelayRun} (h : Reachable P s) :
    s.relay.Armed := by
  apply h.invariant_of (J := fun s => s.relay.Armed) (K := fun s => s.relay.Inv False)
  · exact fun s h => Reachable.inv (fun h => h.elim) h
  · rintro _ ⟨port, rfl⟩
    exact ⟨by simp [start], by simp [start]⟩
  · intro s e s' hI h _ hs
    rcases step_cases hs with ⟨a, r, puts, rfl, hr, rfl⟩ | ⟨-, -, _, _, _, _, hs'⟩
    · exact (Relay.step_change hI hr).armed h
    · rw [hs']
      exact { h with }

/-- The drain does not append the payload of an empty DATA frame to an empty `sendq`. -/
def pushesBytes (s : RelayRun) : Event → Bool
  | .thread _ => s.relay.pushesBytes
  | _ => true

theorem Reachable.flagged {s : RelayRun} (h : Reachable (fun s e => s.pushesBytes e) s) :
    s.relay.Flagged := by
  apply h.invariant_of (J := fun s => s.relay.Flagged) (K := fun s => s.relay.Inv False)
  · exact fun s h => Reachable.inv (fun h => h.elim) h
  · rintro _ ⟨port, rfl⟩
    intro n
    simp [start]
  · intro s e s' hI h hP hs
    rcases step_cases hs with ⟨a, r, puts, rfl, hr, rfl⟩ | ⟨-, -, _, _, _, _, hs'⟩
    · exact (Relay.step_change hI hr).flagged h hP
    · rw [hs']
      exact h

/-- The thread is about to call `select`, with both close flags unset. -/
structure Selecting (s : RelayRun) : Prop where
  phase : s.relay.phase = .top
  closeReq : s.closeReq = false
  atomicClose : s.relay.atomicClose = false

end RelayRun
end PortPort
