import PortPort.Lib.Framing
import PortPort.Common.CodecLemmas

/-! # The receive loop

`recvq += chunk`, then `grab_msg` until `recvq` is empty or an exception breaks out of the loop.
Outside AUTH frames the decoder is stable (`frames_stable`): what it refuses because the frame is
cut short it refuses without consuming anything, and what it accepts does not depend on the bytes
that follow. -/

namespace PortPort
open PortPortMessage Framing

/-- The message and the remainder, if `grab_msg` does not raise. -/
def grabMsg? (buffer : Bytes) : Option (PortPortMessage × Bytes) := (grabMsg buffer).toOption

theorem grabMsg?_eq_some {b : Bytes} {x : PortPortMessage × Bytes} :
    grabMsg? b = some x ↔ deserialize b = .ok x := by
  unfold grabMsg? grabMsg
  cases deserialize b <;> simp [Except.toOption]

theorem deserialize_shrinks {b r : Bytes} {m : PortPortMessage} (h : deserialize b = .ok (m, r)) :
    r.length + 3 ≤ b.length := by
  obtain ⟨t, body, rfl, hf⟩ := deserialize_eq_ok.mp h
  by_cases ht : t = .auth
  · subst ht
    obtain ⟨n, _, hf⟩ := bind_eq_ok.mp hf
    obtain ⟨_, _, hf⟩ := bind_eq_ok.mp hf
    cases hf
    simp only [List.length_drop, List.length_append, headerBytes, List.length_cons, List.length_nil]
    omega
  · obtain ⟨-, -, -, -, hd⟩ := (deserializeFields_iff ht).mp hf
    have hb : body = m.fieldBytes ++ r := hd
    simp only [hb, List.length_append, headerBytes, List.length_cons, List.length_nil]
    omega

theorem deserialize_suffix {b r : Bytes} {m : PortPortMessage} (h : deserialize b = .ok (m, r)) :
    r <:+ b := by
  obtain ⟨t, body, rfl, hf⟩ := deserialize_eq_ok.mp h
  by_cases ht : t = .auth
  · -- the declared length may point past the end
    subst ht
    obtain ⟨n, _, hf⟩ := bind_eq_ok.mp hf
    obtain ⟨_, _, hf⟩ := bind_eq_ok.mp hf
    cases hf
    exact List.drop_suffix ..
  · obtain ⟨-, -, -, -, hd⟩ := (deserializeFields_iff ht).mp hf
    have hb : body = m.fieldBytes ++ r := hd
    rw [hb, ← List.append_assoc]
    exact List.suffix_append ..

/-- The decoder of the management stream. -/
def frames : Decoder PortPortMessage UInt8 where
  dec := grabMsg?
  shrinks h := by
    have := deserialize_shrinks (grabMsg?_eq_some.mp h)
    omega

/-- Greedy decoding has come to a frame of type AUTH. -/
def AuthFrame (b : Bytes) : Prop := ∃ body, b = headerBytes .auth ++ body

theorem frames_stable : Stable frames AuthFrame where
  dec := by
    intro b r m x hb h
    have h := grabMsg?_eq_some.mp h
    have hm : m.msgType ≠ .auth := by
      intro hm
      obtain ⟨t, body, rfl, hf⟩ := deserialize_eq_ok.mp h
      by_cases ht : t = .auth
      · exact hb ⟨body, ht ▸ rfl⟩
      · exact ht (((deserializeFields_iff ht).mp hf).1.symm.trans hm)
    obtain ⟨hv, hc, enc, henc, rfl⟩ := (deserialize_iff hm).mp h
    exact grabMsg?_eq_some.mpr <|
      (deserialize_iff hm).mpr ⟨hv, hc, enc, henc, List.append_assoc ..⟩
  bad := by
    rintro _ x ⟨body, rfl⟩
    exact ⟨body ++ x, List.append_assoc ..⟩

/-- A message that `serialize` accepts, with defaults in the fields its layout does not carry. -/
structure WellFormed (m : PortPortMessage) : Prop where
  version : m.version = 1
  fits : m.Fits
  carried : m.carried = m
  notAuth : m.msgType ≠ .auth

/-- The encoding of a well-formed message. -/
def encode (m : PortPortMessage) : Bytes := headerBytes m.msgType ++ m.fieldBytes

theorem WellFormed.serialize {m : PortPortMessage} (h : WellFormed m) :
    m.serialize = .ok (encode m) :=
  (serialize_iff h.version).mpr ⟨h.fits, rfl⟩

theorem grabMsg?_encode {m : PortPortMessage} (x : Bytes) (h : WellFormed m) :
    frames.dec (encode m ++ x) = some (m, x) :=
  grabMsg?_eq_some.mpr <|
    (deserialize_iff h.notAuth).mpr ⟨h.version, h.carried, _, h.serialize, rfl⟩

/-- A non-AUTH message that the decoder returns is well formed. -/
theorem WellFormed.of_deserialize {m : PortPortMessage} {b r : Bytes} (hm : m.msgType ≠ .auth)
    (h : deserialize b = .ok (m, r)) : WellFormed m := by
  obtain ⟨hv, hc, enc, henc, -⟩ := (deserialize_iff hm).mp h
  exact ⟨hv, ((serialize_iff hv).mp henc).1, hc, hm⟩

/-- Outside AUTH frames, what the decoder takes off a buffer is the encoding of the message. -/
theorem frames_dec_eq {m : PortPortMessage} {b r : Bytes} (hm : m.msgType ≠ .auth)
    (h : frames.dec b = some (m, r)) : b = encode m ++ r := by
  have h := grabMsg?_eq_some.mp h
  obtain ⟨-, -, enc, henc, rfl⟩ := (deserialize_iff hm).mp h
  rw [(WellFormed.of_deserialize hm h).serialize] at henc
  rw [Except.ok.inj henc]

theorem not_authFrame_encode {m : PortPortMessage} (x : Bytes) (h : m.msgType ≠ .auth) :
    ¬ AuthFrame (encode m ++ x) := by
  rintro ⟨body, hb⟩
  have : UInt8.ofNat m.msgType.value = UInt8.ofNat PortPortMessageType.auth.value := by
    have := congrArg (·[1]?) hb
    simpa [encode, headerBytes] using this
  cases ht : m.msgType <;> simp_all [PortPortMessageType.value]

theorem not_authFrame_nil : ¬ AuthFrame [] := by
  rintro ⟨body, hb⟩
  simp [headerBytes] at hb

theorem avoids_encode {ms : List PortPortMessage} (hms : ∀ m ∈ ms, WellFormed m) :
    Avoids frames AuthFrame (ms.flatMap encode) := by
  intro s hs
  obtain ⟨ns, hns, rfl⟩ := visits_flatMap grabMsg?_encode hms hs
  cases ns with
  | nil => exact not_authFrame_nil
  | cons n ns => exact not_authFrame_encode _ (hns n (by simp)).notAuth

/-- The receive loop of `create_remote_proxy` on a sequence of received chunks, from the empty
`recvq`: the messages it decodes and the `recvq` it is left with. -/
def receive (chunks : List Bytes) : List PortPortMessage × Bytes := feed frames [] chunks

theorem encode_of_serialize {ms : List PortPortMessage} {encs : List Bytes}
    (hms : ∀ m ∈ ms, WellFormed m)
    (h : List.Forall₂ (fun m enc => m.serialize = .ok enc) ms encs) :
    encs.flatten = ms.flatMap encode := by
  induction h with
  | nil => rfl
  | @cons m enc ms encs hm _ ih =>
    rw [(hms m (by simp)).serialize] at hm
    cases hm
    rw [List.flatten_cons, List.flatMap_cons, ih fun m h => hms m (by simp [h])]

theorem receive_eq_drain {cs : List Bytes} (hav : Avoids frames AuthFrame cs.flatten) :
    receive cs = drain frames cs.flatten :=
  feed_eq_drain frames_stable hav rfl

/-- **Decoding does not depend on how the stream is segmented**: two ways of cutting a byte
string on which greedy decoding never comes to an AUTH frame give the same messages and the same
final `recvq`, and a stream of encoded messages gives these messages and an empty `recvq`. -/
theorem receive_segmentation :
    (∀ (B : Bytes) (cs cs' : List Bytes), Avoids frames AuthFrame B →
      cs.flatten = B → cs'.flatten = B → receive cs = receive cs') ∧
    (∀ (ms : List PortPortMessage) (encs cs : List Bytes), (∀ m ∈ ms, WellFormed m) →
      List.Forall₂ (fun m enc => m.serialize = .ok enc) ms encs → cs.flatten = encs.flatten →
      receive cs = (ms, [])) := by
  constructor
  · rintro _ cs cs' hav rfl h'
    rw [receive_eq_drain hav, receive_eq_drain (h' ▸ hav), h']
  · intro ms encs cs hms henc hcs
    rw [encode_of_serialize hms henc] at hcs
    rw [receive_eq_drain (hcs ▸ avoids_encode hms), hcs]
    exact drain_flatMap grabMsg?_encode hms

/-- A DATA frame that is cut inside its header and inside its payload. -/
theorem receive_segmentation_data :
    let m : PortPortMessage := { msgType := .data, addr := .dotted 10 0 0 1, port := 5000,
                                 relayPort := 4000, data := [1, 2] }
    let B := encode m
    receive [B.take 2, B.drop 2] = receive [B] ∧
      receive [B.take 3, (B.drop 3).take 14, B.drop 17] = ([m], []) := by
  intro m B
  have hm : WellFormed m := ⟨rfl, ⟨⟨by decide, by decide⟩, by decide⟩, rfl, nofun⟩
  have hB : B = [m].flatMap encode := by simp [B]
  refine ⟨receive_segmentation.1 B _ _ (hB ▸ avoids_encode (by simpa using hm)) ?_ ?_,
    receive_segmentation.2 [m] [B] _ (by simpa using hm) (.cons hm.serialize .nil) ?_⟩
  · simp
  · simp
  · have hdrop : B.drop 17 = (B.drop 3).drop 14 := (List.drop_drop (i := 14) (j := 3)).symm
    rw [hdrop, List.flatten_cons, List.flatten_cons, List.flatten_singleton, List.take_append_drop,
      List.take_append_drop, List.flatten_singleton]

end PortPort
