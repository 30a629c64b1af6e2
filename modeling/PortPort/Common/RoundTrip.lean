import PortPort.Common.Tokens

/-! # Round trips, and frames cut short

Outside AUTH frames `serialize` and `deserialize` undo each other. What `deserialize` raises on a
part of a frame of version 1 is never an exception for a violation of the protocol; only a token may
be cut short without being refused. -/

namespace PortPort
open BigEndian

/-- The exceptions that stand for a violation of the protocol, as opposed to a frame cut short. -/
def PyError.violation : PyError → Bool
  | .portPortBadVersion _ | .portPortUnsupportedMsgType _ => true
  | _ => false

namespace PortPortMessage

theorem carried_carried (m : PortPortMessage) : m.carried.carried = m.carried := by
  cases ht : m.msgType <;> simp [carried, ht]

theorem carried_serialize (m : PortPortMessage) : m.carried.serialize = m.serialize := by
  cases ht : m.msgType <;> simp [carried, serialize, serializeConn, ht]

/-- **Decoding undoes encoding**: a message that fits its layout is encoded, and behind any bytes
its encoding is decoded to its carried fields, with exactly these bytes left. -/
theorem decode_encode {m : PortPortMessage} (hv : m.version = 1) (ht : m.msgType ≠ .auth)
    (hfits : m.Fits) :
    ∃ enc, m.serialize = .ok enc ∧ ∀ rest, deserialize (enc ++ rest) = .ok (m.carried, rest) := by
  have henc := (serialize_iff hv).mpr ⟨hfits, rfl⟩
  refine ⟨_, henc, fun rest => ?_⟩
  have hct : m.carried.msgType = m.msgType := by cases h : m.msgType <;> simp [carried, h]
  have hcv : m.carried.version = 1 := by cases h : m.msgType <;> simp [carried, h, hv]
  exact (deserialize_iff (hct ▸ ht)).mpr
    ⟨hcv, carried_carried m, _, (carried_serialize m).trans henc, rfl⟩

/-- A DATA frame over IPv6. -/
theorem decode_encode_data :
    let m : PortPortMessage := { msgType := .data, addr := .ipv6 ⟨List.replicate 16 1, rfl⟩,
                                 port := 65535, relayPort := 0, data := [1, 2] }
    ∃ enc, m.serialize = .ok enc ∧ ∀ rest, deserialize (enc ++ rest) = .ok (m, rest) :=
  decode_encode rfl (by decide) ⟨⟨by decide, by decide⟩, by decide⟩

/-- **The encoding is canonical**: a buffer that is decoded to a message is the encoding of the
message and the bytes left, and so is every other buffer decoded to it. -/
theorem encode_decode {m : PortPortMessage} {b rest : Bytes} (ht : m.msgType ≠ .auth)
    (h : deserialize b = .ok (m, rest)) :
    ∃ enc, m.serialize = .ok enc ∧ b = enc ++ rest ∧
      ∀ b' rest', deserialize b' = .ok (m, rest') → b' = enc ++ rest' := by
  obtain ⟨-, -, enc, henc, hb⟩ := (deserialize_iff ht).mp h
  refine ⟨enc, henc, hb, fun b' rest' h' => ?_⟩
  obtain ⟨-, -, enc', henc', hb'⟩ := (deserialize_iff ht).mp h'
  cases henc.symm.trans henc'
  exact hb'

theorem encode_decode_openRelay :
    let m : PortPortMessage := { msgType := .openRelay, relayPort := 4000 }
    ∃ enc, m.serialize = .ok enc ∧ [64, 6, 1, 15, 160, 9] = enc ++ [9] ∧
      ∀ b' rest', deserialize b' = .ok (m, rest') → b' = enc ++ rest' :=
  encode_decode (by decide) rfl

end PortPortMessage

/-! ## What `deserialize` raises -/

/-- The computation raises no exception that stands for a violation of the protocol. -/
def Ordinary {α : Type} (x : Except PyError α) : Prop := ∀ e, x = .error e → e.violation = false

namespace Ordinary
variable {α β : Type} {x : Except PyError α} {f : α → Except PyError β}

protected theorem ok (a : α) : Ordinary (.ok a : Except PyError α) := nofun

protected theorem error {e : PyError} (h : e.violation = false) :
    Ordinary (.error e : Except PyError α) := by
  intro e' he
  cases he
  exact h

theorem bind (hx : Ordinary x) (hf : ∀ a, x = .ok a → Ordinary (f a)) : Ordinary (x >>= f) := by
  cases x with
  | error e => exact .error (hx e rfl)
  | ok a => exact hf a rfl

theorem ite {p : Prop} [Decidable p] {x y : Except PyError α} (hx : p → Ordinary x)
    (hy : ¬ p → Ordinary y) : Ordinary (if p then x else y) := by
  split
  · exact hx ‹_›
  · exact hy ‹_›

theorem index (data : Bytes) (i : Nat) : Ordinary (index data i) := by
  unfold PortPort.index
  split
  · exact .ok _
  · exact .error rfl

theorem unpack (w : Nat) (b : Bytes) : Ordinary (unpack w b) :=
  .ite (fun _ => .ok _) fun _ => .error rfl

theorem inetNtop (n : Nat) (b : Bytes) : Ordinary (inetNtop n b) := by
  unfold PortPort.inetNtop
  split
  · exact .ok _
  · exact .error rfl

theorem decodeUtf8 (b : Bytes) : Ordinary (decodeUtf8 b) := by
  unfold PortPort.decodeUtf8
  split
  · exact .ok _
  · exact .error rfl

theorem messageType (v : Nat) : Ordinary (PortPortMessageType.ofValue v) := by
  unfold PortPortMessageType.ofValue
  split
  all_goals first | exact .ok _ | exact .error rfl

theorem errorType (v : Nat) : Ordinary (PortPortErrorTypes.ofValue v) := by
  unfold PortPortErrorTypes.ofValue
  split
  all_goals first | exact .ok _ | exact .error rfl

end Ordinary

namespace PortPortMessage

theorem deserializeAddress_ordinary (data : Bytes) : Ordinary (deserializeAddress data) := by
  refine (Ordinary.index _ _).bind fun _ _ => ?_
  refine .ite (fun _ => (Ordinary.inetNtop _ _).bind fun _ _ => .ok _) fun _ => ?_
  exact .ite (fun _ => (Ordinary.inetNtop _ _).bind fun _ _ => .ok _) fun _ => .error rfl

theorem deserializeConn_ordinary (t : PortPortMessageType) (v : Int) (data : Bytes) :
    Ordinary (deserializeConn t v data) := by
  refine (deserializeAddress_ordinary data).bind fun _ _ => ?_
  refine (Ordinary.unpack _ _).bind fun _ _ => (Ordinary.unpack _ _).bind fun _ _ => ?_
  refine .ite (fun _ => .ok _) fun _ => .ite (fun _ => ?_) fun _ => .error rfl
  exact (Ordinary.unpack _ _).bind fun _ _ => .ite (fun _ => .error rfl) fun _ => .ok _

theorem deserializeFields_ordinary (t : PortPortMessageType) (v : Int) (data : Bytes) :
    Ordinary (deserializeFields t v data) := by
  unfold deserializeFields
  cases t with
  | error =>
    exact (Ordinary.index _ _).bind fun _ _ => (Ordinary.errorType _).bind fun _ _ => .ok _
  | auth =>
    exact (Ordinary.unpack _ _).bind fun _ _ => (Ordinary.decodeUtf8 _).bind fun _ _ => .ok _
  | createRelay | authSuccess => exact .ok _
  | destroyRelay | openRelay => exact (Ordinary.unpack _ _).bind fun _ _ => .ok _
  | newConnection | closeConnection | data => exact deserializeConn_ordinary _ _ _

/-- A header with a known type and another version than 1. -/
def BadVersion (b : Bytes) : Prop :=
  ∃ (t : PortPortMessageType) (v : UInt8) (rest : Bytes),
    b = 64 :: UInt8.ofNat t.value :: v :: rest ∧ v ≠ 1

/-- Only a header of another version makes `deserialize` raise a violation of the protocol. -/
theorem deserialize_ordinary {b : Bytes} (h : ¬ BadVersion b) : Ordinary (deserialize b) := by
  unfold deserialize
  refine .ite (fun _ => .error rfl) fun _ => ?_
  refine (Ordinary.index _ _).bind fun b0 h0 => ?_
  refine .ite (fun _ => .error rfl) fun hb0 => ?_
  refine (Ordinary.index _ _).bind fun b1 h1 => (Ordinary.messageType _).bind fun t ht => ?_
  refine (Ordinary.index _ _).bind fun b2 h2 => .ite (fun hv => ?_) fun _ => ?_
  · refine absurd ⟨t, b2, b.drop 3, ?_, ?_⟩ h
    · rw [ne_eq, not_not] at hb0
      rw [index_iff] at h0 h1 h2
      rw [← PortPortMessageType.value_of_ofValue ht, UInt8.ofNat_toNat, ← h2, ← h1, ← hb0, ← h0,
        List.drop_zero]
    · rintro rfl
      exact hv rfl
  · exact deserializeFields_ordinary _ _ _

/-- And such a header always does. -/
theorem BadVersion.deserialize {b : Bytes} (h : BadVersion b) :
    ∃ msg, deserialize b = .error (.portPortBadVersion msg) := by
  obtain ⟨t, v, rest, rfl, hv⟩ := h
  have ht : PortPortMessageType.ofValue (UInt8.ofNat t.value).toNat = .ok t := by
    rw [UInt8.toNat_ofNat', Nat.mod_eq_of_lt t.value_lt]
    exact t.ofValue_value
  have hv : v.toNat ≠ VERSION := fun hv' => hv (UInt8.toNat_inj.mp hv')
  refine ⟨s!"unsupported PORT PORT version = {v.toNat}, server running {VERSION}", ?_⟩
  show (PortPortMessageType.ofValue (UInt8.ofNat t.value).toNat >>= fun _ =>
    if v.toNat ≠ VERSION then _ else _) = _
  rw [ht, ok_bind, if_pos hv]
  rfl

/-- The header of a buffer, read off a longer one. -/
theorem header_of_part {t t' : PortPortMessageType} {body body' : Bytes}
    (h : headerBytes t' ++ body' <+: headerBytes t ++ body) : t' = t := by
  have hv : UInt8.ofNat t'.value = UInt8.ofNat t.value := by
    obtain ⟨x, hx⟩ := h
    have := congrArg (·[1]?) hx
    simpa [headerBytes] using this
  have hv : t'.value = t.value := by
    have := congrArg UInt8.toNat hv
    rwa [UInt8.toNat_ofNat', UInt8.toNat_ofNat', Nat.mod_eq_of_lt t'.value_lt,
      Nat.mod_eq_of_lt t.value_lt] at this
  have ht := t.ofValue_value.symm.trans (hv ▸ t'.ofValue_value)
  exact (Except.ok.inj ht).symm

/-- A part of a frame of version 1 has no header of another version. -/
theorem not_badVersion_of_part {t : PortPortMessageType} {body p : Bytes}
    (h : p <+: headerBytes t ++ body) : ¬ BadVersion p := by
  rintro ⟨t', v, rest, rfl, hv⟩
  obtain ⟨x, hx⟩ := h
  have := congrArg (·[2]?) hx
  exact hv (by simpa [headerBytes] using this)

/-- No frame but that of a token is decoded when it is cut short. -/
theorem deserialize_cut {m : PortPortMessage} {enc p : Bytes} (hv : m.version = 1)
    (ht : m.msgType ≠ .auth) (henc : m.serialize = .ok enc) (hp : p <+: enc) (hne : p ≠ enc)
    (x : PortPortMessage × Bytes) : deserialize p ≠ .ok x := by
  intro h
  obtain ⟨m', r⟩ := x
  obtain ⟨hfits, rfl⟩ := (serialize_iff hv).mp henc
  obtain ⟨t, body, hb, hf⟩ := deserialize_eq_ok.mp h
  have htm : t = m.msgType := header_of_part (hb ▸ hp)
  have hm' : m'.msgType ≠ .auth := by
    rw [((deserializeFields_iff (htm ▸ ht)).mp hf).1, htm]
    exact ht
  obtain ⟨hv', hc', enc', henc', rfl⟩ := (deserialize_iff hm').mp h
  obtain ⟨y, hy⟩ := hp
  -- the same frame is all of `enc`
  obtain ⟨_, henc'', hall⟩ := decode_encode hv ht hfits
  cases henc.symm.trans henc''
  have hlong := (deserialize_iff (b := enc' ++ r ++ y) (r := r ++ y) hm').mpr
    ⟨hv', hc', enc', henc', List.append_assoc ..⟩
  have hwhole := hall []
  rw [List.append_nil, ← hy, hlong] at hwhole
  obtain ⟨-, hry⟩ := Prod.mk.inj (Except.ok.inj hwhole)
  rw [(List.append_eq_nil_iff.mp hry).2, List.append_nil] at hy
  exact hne hy

/-- Of a frame with a token, a part that ends before the token does not decode, and a part that
ends within the token decodes. -/
theorem deserialize_cut_token {t : String} {p : Bytes} (ha : IsAscii t) (hlt : t.length < 256 ^ 2)
    (hp : p <+: headerBytes .auth ++ (toBE 2 t.length ++ encodeUtf8 t)) :
    (∃ e, deserialize p = .error e) ↔ p.length < 5 := by
  constructor
  · rintro ⟨e, he⟩
    by_contra hlen
    have hq : p = headerBytes .auth ++ (toBE 2 t.length ++ (encodeUtf8 t).take (p.length - 5)) := by
      have htake := List.prefix_iff_eq_take.mp hp
      have hheader : (headerBytes .auth).length = 3 := rfl
      have hlength : (toBE 2 t.length).length = 2 := length_toBE ..
      have h3 : (headerBytes .auth).length ≤ p.length := by omega
      have h2 : (toBE 2 t.length).length ≤ p.length - (headerBytes .auth).length := by omega
      rw [List.take_append, List.take_append, List.take_of_length_le h3,
        List.take_of_length_le h2, hlength, hheader, Nat.sub_sub] at htake
      exact htake
    rw [hq, deserialize_token _ hlt, List.take_take, encodeUtf8_take ha (min _ _),
      decodeUtf8_iff.mpr rfl] at he
    cases he
  · intro hlen
    cases h : deserialize p with
    | error e => exact ⟨e, rfl⟩
    | ok x =>
      obtain ⟨t', body, rfl, hf⟩ := deserialize_eq_ok.mp h
      have ht' : t' = .auth := header_of_part hp
      subst ht'
      obtain ⟨n, hn, -⟩ := bind_eq_ok.mp hf
      have hlength := congrArg List.length ((unpack_slice_iff (i := 3) (w := 2)).mp hn).2
      rw [List.length_append, length_toBE, List.length_drop] at hlength
      omega

/-- The frame of the token `a`. -/
theorem serialize_auth_a :
    serialize { msgType := .auth, auth := "a" } = .ok [64, 8, 1, 0, 1, 97] := by
  have hlen : "a".length = 1 := rfl
  refine (serialize_iff rfl).mpr ⟨by simp [Fits, hlen], ?_⟩
  simp [fieldBytes, encodeUtf8_eq, toBE, headerBytes, PortPortMessageType.value,
    String.utf8EncodeChar, hlen]

/-- **Frames cut short**: a strict part of a frame of version 1 is refused, and not as a violation
of the protocol, unless it is a frame with a token that is cut within the token. -/
theorem truncated_detected_iff {m : PortPortMessage} {enc p : Bytes} (hv : m.version = 1)
    (hascii : m.msgType = .auth → IsAscii m.auth) (henc : m.serialize = .ok enc)
    (hp : p <+: enc) (hne : p ≠ enc) :
    (∃ e, deserialize p = .error e ∧ e.violation = false) ↔
      m.msgType ≠ .auth ∨ p.length < 5 := by
  obtain ⟨hfits, rfl⟩ := (serialize_iff hv).mp henc
  have hord := deserialize_ordinary (not_badVersion_of_part hp)
  have hraised : (∃ e, deserialize p = .error e ∧ e.violation = false) ↔
      ∃ e, deserialize p = .error e :=
    ⟨fun ⟨e, he, _⟩ => ⟨e, he⟩, fun ⟨e, he⟩ => ⟨e, he, hord e he⟩⟩
  rw [hraised]
  by_cases ht : m.msgType = .auth
  · have hb : headerBytes m.msgType ++ m.fieldBytes =
        headerBytes .auth ++ (toBE 2 m.auth.length ++ encodeUtf8 m.auth) := by
      simp only [ht, fieldBytes]
    have hlt : m.auth.length < 256 ^ 2 := by
      simpa only [Fits, ht] using hfits
    rw [deserialize_cut_token (hascii ht) hlt (hb ▸ hp)]
    simp [ht]
  · refine iff_of_true ?_ (.inl ht)
    cases h : deserialize p with
    | error e => exact ⟨e, rfl⟩
    | ok x => exact absurd h (deserialize_cut hv ht henc hp hne x)

/-- A frame with the token `a`, without its last byte. -/
theorem truncated_detected_token :
    (∃ e, deserialize [64, 8, 1, 0, 1] = .error e ∧ e.violation = false) ↔
      PortPortMessageType.auth ≠ .auth ∨ [64, 8, 1, 0, 1].length < 5 :=
  truncated_detected_iff rfl (fun _ => by simp [IsAscii]) serialize_auth_a ⟨[97], rfl⟩ (by decide)

/-- Without its last byte it is the frame of the empty token. -/
theorem truncated_token_accepted :
    ¬ ∀ (m : PortPortMessage) (enc p : Bytes), m.version = 1 →
      (m.msgType = .auth → IsAscii m.auth) → m.serialize = .ok enc → p <+: enc → p ≠ enc →
      ∃ e, deserialize p = .error e ∧ e.violation = false := by
  intro h
  obtain ⟨e, he, -⟩ := h _ _ [64, 8, 1, 0, 1] rfl (fun _ => by simp [IsAscii]) serialize_auth_a
    ⟨[97], rfl⟩ (by decide)
  have hdec := deserialize_token (n := 1) [] (by decide)
  rw [List.take_nil, decodeUtf8_iff (s := "").mpr (by simp [encodeUtf8_eq])] at hdec
  cases hdec.symm.trans he

end PortPortMessage
end PortPort
