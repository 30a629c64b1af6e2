import PortPort.Common.Codec

/-! # The wire format

`PortPortMessage.deserialize_iff`: outside the AUTH frame, the decoder accepts a buffer exactly
when it is the encoding of the message it returns followed by the remainder it returns. Both
directions come from one cursor lemma for each primitive read, which says what the read found at
its offset and where the next one starts. -/

namespace PortPort
open BigEndian

theorem bind_eq_ok {ε α β : Type} {x : Except ε α} {f : α → Except ε β} {b : β} :
    (x >>= f) = .ok b ↔ ∃ a, x = .ok a ∧ f a = .ok b := by
  cases x with
  | error e =>
    constructor
    · intro h; cases h
    · rintro ⟨_, h, _⟩; cases h
  | ok a =>
    constructor
    · intro h; exact ⟨a, rfl, h⟩
    · rintro ⟨_, h, h'⟩; cases h; exact h'

theorem ok_bind {ε α β : Type} (a : α) (f : α → Except ε β) : (Except.ok a >>= f) = f a := rfl

/-- A first part that succeeds on a condition, and then with one result. -/
theorem bind_iff {ε α β : Type} {x : Except ε α} {f : α → Except ε β} {P : Prop} {a : α} {b : β}
    (hx : ∀ a', x = .ok a' ↔ P ∧ a' = a) : x >>= f = .ok b ↔ P ∧ f a = .ok b := by
  rw [bind_eq_ok]
  constructor
  · rintro ⟨a', ha, hf⟩
    obtain ⟨hP, rfl⟩ := (hx a').mp ha
    exact ⟨hP, hf⟩
  · rintro ⟨hP, hf⟩
    exact ⟨a, (hx a).mpr ⟨hP, rfl⟩, hf⟩

theorem pure_iff {ε α : Type} {a b : α} : (pure a : Except ε α) = .ok b ↔ b = a :=
  ⟨fun h => (Except.ok.inj h).symm, fun h => congrArg Except.ok h.symm⟩

/-! ## Cursor lemmas -/

theorem index_iff {data : Bytes} {i : Nat} {b : UInt8} :
    index data i = .ok b ↔ data.drop i = b :: data.drop (i + 1) := by
  unfold index
  by_cases hi : i < data.length
  · rw [List.getElem?_eq_getElem hi, List.drop_eq_getElem_cons hi]
    simp only [Except.ok.injEq, List.cons.injEq, and_true]
  · rw [List.getElem?_eq_none (Nat.le_of_not_lt hi), List.drop_of_length_le (Nat.le_of_not_lt hi)]
    simp

theorem slice_eq {data x l : Bytes} {i j : Nat} (h : data.drop i = x ++ l) (hj : i + x.length = j) :
    slice data i j = x ∧ data.drop j = l := by
  subst hj
  constructor
  · simp [slice, h]
  · rw [← List.drop_drop, h, List.drop_left]

theorem drop_eq_slice (data : Bytes) (i n : Nat) :
    data.drop i = slice data i (i + n) ++ data.drop (i + n) := by
  simp only [slice, ← List.drop_drop, Nat.add_sub_cancel_left, List.take_append_drop]

theorem unpack_slice_iff {data : Bytes} {i w : Nat} {n : Int} :
    unpack w (slice data i (i + w)) = .ok n ↔
      (0 ≤ n ∧ n < 256 ^ w) ∧ data.drop i = toBE w n.toNat ++ data.drop (i + w) := by
  unfold unpack
  constructor
  · intro h
    split at h
    · rename_i hw
      cases h
      have hlt := ofBE_lt (slice data i (i + w))
      rw [hw] at hlt
      refine ⟨⟨Int.natCast_nonneg _, by exact_mod_cast hlt⟩, ?_⟩
      have hx := toBE_ofBE (slice data i (i + w))
      rw [hw] at hx
      rw [Int.toNat_natCast, hx, ← drop_eq_slice]
    · cases h
  · rintro ⟨⟨h0, hlt⟩, hd⟩
    have hs := (slice_eq (j := i + w) hd (by rw [length_toBE])).1
    have hn : n.toNat < 256 ^ w := by
      have h : ((n.toNat : Nat) : Int) < ((256 ^ w : Nat) : Int) := by
        rw [Int.toNat_of_nonneg h0]; exact_mod_cast hlt
      exact Int.ofNat_lt.mp h
    rw [hs, if_pos (length_toBE ..), ofBE_toBE hn, Int.toNat_of_nonneg h0]

/-- A payload behind its length field, as `deserialize` reads it: the slice is as long as the
field says exactly when the buffer holds all of it. -/
theorem payload_iff {data p : Bytes} {o : Nat} {len : Int} :
    (unpack 4 (slice data o (o + 4)) = .ok len ∧
      p = slice data (o + 4) (o + 4 + len.toNat) ∧ (p.length : Int) = len) ↔
    (p.length : Int) = len ∧ p.length < 256 ^ 4 ∧
      data.drop o = toBE 4 p.length ++ (p ++ data.drop (o + 4 + p.length)) := by
  rw [unpack_slice_iff]
  constructor
  · rintro ⟨⟨⟨_, hlt⟩, hd⟩, hp, rfl⟩
    rw [Int.toNat_natCast] at hd hp
    refine ⟨rfl, by exact_mod_cast hlt, ?_⟩
    rw [hd, drop_eq_slice data (o + 4) p.length, ← hp]
  · rintro ⟨rfl, hlt, hd⟩
    have h1 := (slice_eq (j := o + 4) hd (by rw [length_toBE])).2
    have h2 := (slice_eq h1 rfl).1
    rw [Int.toNat_natCast]
    exact ⟨⟨⟨Int.natCast_nonneg _, by exact_mod_cast hlt⟩, h1 ▸ hd⟩, h2.symm, rfl⟩

theorem inetNtop_slice_iff {data : Bytes} {i n : Nat} {a : Packed n} :
    inetNtop n (slice data i (i + n)) = .ok a ↔ data.drop i = a.bytes ++ data.drop (i + n) := by
  unfold inetNtop
  constructor
  · intro h
    split at h
    · cases h
      exact drop_eq_slice ..
    · cases h
  · intro h
    have hs := (slice_eq (j := i + n) h (by rw [a.length_eq])).1
    rw [dif_pos (hs ▸ a.length_eq)]
    exact congrArg _ (Packed.ext hs)

theorem pack_iff {w : Nat} {n : Int} {b : Bytes} :
    pack w n = .ok b ↔ (0 ≤ n ∧ n < 256 ^ w) ∧ b = toBE w n.toNat := by
  unfold pack
  split
  · rename_i h
    simp [h, eq_comm]
  · rename_i h
    simp only [reduceCtorEq, h, false_and]

theorem pack_nat_iff {w n : Nat} {b : Bytes} : pack w n = .ok b ↔ n < 256 ^ w ∧ b = toBE w n := by
  rw [pack_iff, Int.toNat_natCast]
  refine and_congr_left fun _ => ⟨fun h => ?_, fun h => ⟨Int.natCast_nonneg n, ?_⟩⟩
  · exact_mod_cast h.2
  · exact_mod_cast h

namespace PortPortMessage

/-! ## The frames that name a connection -/

/-- The address family and the packed address. -/
def addressBytes : IPAddress → Bytes
  | .ipv6 a => 6 :: a.bytes
  | .ipv4 a => 4 :: a.bytes

theorem serializeConn_iff {m : PortPortMessage} {b : Bytes} :
    m.serializeConn = .ok b ↔
      ((0 ≤ m.port ∧ m.port < 256 ^ 2) ∧ (0 ≤ m.relayPort ∧ m.relayPort < 256 ^ 2)) ∧
      b = addressBytes m.addr ++ toBE 2 m.port.toNat ++ toBE 2 m.relayPort.toNat := by
  rw [and_assoc]
  refine (bind_iff fun _ => pack_iff).trans (and_congr_right fun _ => ?_)
  exact (bind_iff fun _ => pack_iff).trans (and_congr_right fun _ => pure_iff)

theorem deserializeAddress_iff {data : Bytes} {addr : IPAddress} {offset : Nat} :
    deserializeAddress data = .ok (addr, offset) ↔
      data.drop 3 = addressBytes addr ++ data.drop offset ∧
        offset = 3 + (addressBytes addr).length := by
  unfold deserializeAddress
  simp only [bind_eq_ok, index_iff]
  constructor
  · rintro ⟨ty, hty, h⟩
    split at h
    · rename_i h6
      obtain ⟨a, ha, h⟩ := bind_eq_ok.mp h
      cases h
      rw [inetNtop_slice_iff] at ha
      refine ⟨?_, by simp [addressBytes, a.length_eq]⟩
      rw [hty, h6, ha]; rfl
    · split at h
      · rename_i h4
        obtain ⟨a, ha, h⟩ := bind_eq_ok.mp h
        cases h
        rw [inetNtop_slice_iff] at ha
        refine ⟨?_, by simp [addressBytes, a.length_eq]⟩
        rw [hty, h4, ha]; rfl
      · cases h
  · rintro ⟨hd, rfl⟩
    cases addr with
    | ipv4 a =>
      have hd' : data.drop 3 = 4 :: (a.bytes ++ data.drop (4 + 4)) := by
        simpa [addressBytes, a.length_eq] using hd
      have h4 : data.drop 4 = a.bytes ++ data.drop (4 + 4) := by
        have := congrArg (List.drop 1) hd'
        rwa [List.drop_drop] at this
      refine ⟨4, by rw [hd', h4], ?_⟩
      rw [if_neg (by decide), if_pos rfl]
      exact bind_eq_ok.mpr ⟨a, inetNtop_slice_iff.mpr h4, by simp [addressBytes, a.length_eq]; rfl⟩
    | ipv6 a =>
      have hd' : data.drop 3 = 6 :: (a.bytes ++ data.drop (4 + 16)) := by
        simpa [addressBytes, a.length_eq] using hd
      have h6 : data.drop 4 = a.bytes ++ data.drop (4 + 16) := by
        have := congrArg (List.drop 1) hd'
        rwa [List.drop_drop] at this
      refine ⟨6, by rw [hd', h6], ?_⟩
      rw [if_pos rfl]
      exact bind_eq_ok.mpr ⟨a, inetNtop_slice_iff.mpr h6, by simp [addressBytes, a.length_eq]; rfl⟩

/-! ## Whole frames -/

/-- The three header bytes of a frame of version 1. -/
def headerBytes (t : PortPortMessageType) : Bytes := [64, UInt8.ofNat t.value, 1]

/-- The fields that the layout of the message's type carries, the others at their defaults. -/
def carried (m : PortPortMessage) : PortPortMessage :=
  let base : PortPortMessage := { msgType := m.msgType, version := m.version }
  match m.msgType with
  | .error => { base with error := m.error }
  | .auth => { base with auth := m.auth }
  | .createRelay | .authSuccess => base
  | .openRelay | .destroyRelay => { base with relayPort := m.relayPort }
  | .newConnection | .closeConnection =>
    { base with addr := m.addr, port := m.port, relayPort := m.relayPort }
  | .data => { base with addr := m.addr, port := m.port, relayPort := m.relayPort, data := m.data }

/-- The ranges outside which `serialize` raises, type by type. -/
def Fits (m : PortPortMessage) : Prop :=
  match m.msgType with
  | .error | .createRelay | .authSuccess => True
  | .auth => m.auth.length < 256 ^ 2
  | .openRelay | .destroyRelay => 0 ≤ m.relayPort ∧ m.relayPort < 256 ^ 2
  | .newConnection | .closeConnection =>
    (0 ≤ m.port ∧ m.port < 256 ^ 2) ∧ (0 ≤ m.relayPort ∧ m.relayPort < 256 ^ 2)
  | .data => ((0 ≤ m.port ∧ m.port < 256 ^ 2) ∧ (0 ≤ m.relayPort ∧ m.relayPort < 256 ^ 2)) ∧
      m.data.length < 256 ^ 4

/-- What stands behind the header. -/
def fieldBytes (m : PortPortMessage) : Bytes :=
  match m.msgType with
  | .error => [UInt8.ofNat m.error.value]
  | .auth => toBE 2 m.auth.length ++ encodeUtf8 m.auth
  | .createRelay | .authSuccess => []
  | .openRelay | .destroyRelay => toBE 2 m.relayPort.toNat
  | .newConnection | .closeConnection =>
    addressBytes m.addr ++ toBE 2 m.port.toNat ++ toBE 2 m.relayPort.toNat
  | .data => addressBytes m.addr ++ toBE 2 m.port.toNat ++ toBE 2 m.relayPort.toNat ++
      toBE 4 m.data.length ++ m.data

theorem serialize_iff {m : PortPortMessage} {b : Bytes} (hv : m.version = 1) :
    m.serialize = .ok b ↔ m.Fits ∧ b = headerBytes m.msgType ++ m.fieldBytes := by
  have h1 : pack 1 m.version = .ok [1] := by rw [hv]; rfl
  unfold serialize Fits fieldBytes
  rw [h1, ok_bind]
  cases m.msgType with
  | error | createRelay | authSuccess => exact pure_iff.trans (iff_of_eq (true_and _)).symm
  | auth => exact (bind_iff fun _ => pack_nat_iff).trans (and_congr_right fun _ => pure_iff)
  | openRelay | destroyRelay =>
    exact (bind_iff fun _ => pack_iff).trans (and_congr_right fun _ => pure_iff)
  | newConnection | closeConnection =>
    exact (bind_iff fun _ => serializeConn_iff).trans (and_congr_right fun _ => pure_iff)
  | data =>
    refine ((bind_iff fun _ => serializeConn_iff).trans (and_congr_right fun _ => ?_)).trans
      and_assoc.symm
    exact (bind_iff fun _ => pack_nat_iff).trans (and_congr_right fun _ => pure_iff)

theorem serialize_ne_nil {m : PortPortMessage} {b : Bytes} (h : m.serialize = .ok b) : b ≠ [] := by
  obtain ⟨version, -, h⟩ := bind_eq_ok.mp h
  cases ht : m.msgType
  all_goals
    simp only [ht, bind_eq_ok, pure, Except.pure, Except.ok.injEq] at h
  case error | createRelay | authSuccess => rw [← h]; simp
  case auth | openRelay | destroyRelay | newConnection | closeConnection =>
    obtain ⟨_, -, rfl⟩ := h
    simp
  case data =>
    obtain ⟨_, -, _, -, rfl⟩ := h
    simp

theorem deserializeConn_iff {t : PortPortMessageType} {v : Int} {data r : Bytes}
    {m : PortPortMessage} (ht : t = .newConnection ∨ t = .closeConnection ∨ t = .data) :
    deserializeConn t v data = .ok (m, r) ↔
      m.msgType = t ∧ m.version = v ∧ m.carried = m ∧ m.Fits ∧ data.drop 3 = m.fieldBytes ++ r := by
  unfold deserializeConn
  simp only [bind_eq_ok, Prod.exists, deserializeAddress_iff, unpack_slice_iff]
  constructor
  · rintro ⟨addr, _, ⟨hd, rfl⟩, port, ⟨hp, hd1⟩, relayPort, ⟨hr, hd2⟩, h⟩
    rw [hd1, hd2] at hd
    by_cases htd : t = .data
    · subst htd
      rw [if_neg (by decide), if_pos rfl] at h
      obtain ⟨len, hlen, h⟩ := bind_eq_ok.mp h
      generalize hslice : slice data _ (_ + len.toNat) = p at h
      split at h
      · cases h
      · rename_i hp4
        rw [ne_eq, not_not] at hp4
        cases h
        subst hp4
        obtain ⟨-, hlt, hd3⟩ := payload_iff.mp ⟨hlen, hslice.symm, rfl⟩
        refine ⟨rfl, rfl, rfl, ⟨⟨hp, hr⟩, hlt⟩, ?_⟩
        rw [hd, hd3, Int.toNat_natCast]
        simp only [fieldBytes, List.append_assoc]
    · rw [if_pos (by tauto)] at h
      cases h
      rcases ht with rfl | rfl | rfl
      · exact ⟨rfl, rfl, rfl, ⟨hp, hr⟩, by simpa [fieldBytes] using hd⟩
      · exact ⟨rfl, rfl, rfl, ⟨hp, hr⟩, by simpa [fieldBytes] using hd⟩
      · exact absurd rfl htd
  · rintro ⟨rfl, rfl, hc, hf, hd⟩
    have hd0 : ∃ l, data.drop 3 =
        addressBytes m.addr ++ (toBE 2 m.port.toNat ++ (toBE 2 m.relayPort.toNat ++ l)) ∧
        (m.msgType = .data → l = toBE 4 m.data.length ++ (m.data ++ r)) ∧
        (m.msgType ≠ .data → l = r) := by
      rcases ht with ht | ht | ht <;> simp [hd, fieldBytes, ht]
    obtain ⟨l, hd0, hdata, hconn⟩ := hd0
    obtain ⟨-, hd1⟩ := slice_eq hd0 rfl
    obtain ⟨-, hd2⟩ := slice_eq hd1 rfl
    obtain ⟨-, hd3⟩ := slice_eq hd2 rfl
    rw [length_toBE] at hd2 hd3
    rw [length_toBE] at hd3
    have hfit : (0 ≤ m.port ∧ m.port < 256 ^ 2) ∧ (0 ≤ m.relayPort ∧ m.relayPort < 256 ^ 2) := by
      rcases ht with ht | ht | ht <;> simp only [Fits, ht] at hf <;> tauto
    refine ⟨m.addr, _, ⟨hd1 ▸ hd0, rfl⟩, m.port, ⟨hfit.1, hd2 ▸ hd1⟩, m.relayPort,
      ⟨hfit.2, hd3 ▸ hd2⟩, ?_⟩
    by_cases htd : m.msgType = .data
    · rw [if_neg (by simp [htd]), if_pos htd]
      have hlt : m.data.length < 256 ^ 4 := by simp only [Fits, htd] at hf; exact hf.2
      rw [hdata htd] at hd3
      have hd5 := (slice_eq (slice_eq hd3 rfl).2 rfl).2
      rw [length_toBE] at hd5
      obtain ⟨h1, h2, -⟩ := payload_iff.mpr ⟨rfl, hlt, hd5 ▸ hd3⟩
      refine bind_eq_ok.mpr ⟨_, h1, ?_⟩
      rw [← h2, if_neg (by simp), Int.toNat_natCast, hd5]
      conv_rhs => rw [← hc]
      simp [carried, htd, pure, Except.pure]
    · rw [if_pos (by tauto), hd3, hconn htd]
      conv_rhs => rw [← hc]
      rcases ht with ht | ht | ht <;> simp_all [carried, pure, Except.pure]

theorem deserializeFields_iff {t : PortPortMessageType} {v : Int} {data r : Bytes}
    {m : PortPortMessage} (ht : t ≠ .auth) :
    deserializeFields t v data = .ok (m, r) ↔
      m.msgType = t ∧ m.version = v ∧ m.carried = m ∧ m.Fits ∧ data.drop 3 = m.fieldBytes ++ r := by
  -- the frames whose only field is a relay port
  have hport (t : PortPortMessageType) (ht : t = .openRelay ∨ t = .destroyRelay) :
      (∃ p, unpack 2 (slice data 3 5) = .ok p ∧
        (Except.ok ({ msgType := t, version := v, relayPort := p }, data.drop 5) :
          Except PyError _) = .ok (m, r)) ↔
      m.msgType = t ∧ m.version = v ∧ m.carried = m ∧ m.Fits ∧
        data.drop 3 = m.fieldBytes ++ r := by
    simp only [unpack_slice_iff (i := 3) (w := 2)]
    constructor
    · rintro ⟨p, ⟨hp, hd⟩, h⟩
      cases h
      rcases ht with rfl | rfl <;> exact ⟨rfl, rfl, rfl, hp, hd⟩
    · rintro ⟨rfl, rfl, hc, hf, hd⟩
      have hd' : data.drop 3 = toBE 2 m.relayPort.toNat ++ r := by
        rcases ht with ht | ht <;> simpa [fieldBytes, ht] using hd
      have hr := (slice_eq hd' rfl).2
      rw [length_toBE] at hr
      refine ⟨m.relayPort, ⟨by rcases ht with ht | ht <;> simpa [Fits, ht] using hf, hr ▸ hd'⟩, ?_⟩
      rw [show data.drop 5 = r from hr]
      conv_rhs => rw [← hc]
      rcases ht with ht | ht <;> simp [carried, ht]
  have hbare (t : PortPortMessageType) (ht : t = .createRelay ∨ t = .authSuccess) :
      (Except.ok ({ msgType := t, version := v }, data.drop 3) : Except PyError _) = .ok (m, r) ↔
      m.msgType = t ∧ m.version = v ∧ m.carried = m ∧ m.Fits ∧
        data.drop 3 = m.fieldBytes ++ r := by
    constructor
    · intro h
      cases h
      rcases ht with rfl | rfl <;> exact ⟨rfl, rfl, rfl, trivial, rfl⟩
    · rintro ⟨rfl, rfl, hc, -, hd⟩
      conv_rhs => rw [← hc]
      rcases ht with ht | ht <;> simp_all [carried, fieldBytes]
  cases t <;> simp only [deserializeFields, bind_eq_ok, pure, Except.pure]
  case auth => exact absurd rfl ht
  case createRelay => exact hbare _ (.inl rfl)
  case authSuccess => exact hbare _ (.inr rfl)
  case openRelay => exact hport _ (.inl rfl)
  case destroyRelay => exact hport _ (.inr rfl)
  case newConnection => exact deserializeConn_iff (.inl rfl)
  case closeConnection => exact deserializeConn_iff (.inr (.inl rfl))
  case data => exact deserializeConn_iff (.inr (.inr rfl))
  case error =>
    simp only [index_iff]
    constructor
    · rintro ⟨b, hb, e, he, h⟩
      cases h
      have := PortPortErrorTypes.value_of_ofValue he
      exact ⟨rfl, rfl, rfl, trivial, by rw [hb]; simp [fieldBytes, ← this]⟩
    · rintro ⟨ht, rfl, hc, -, hd⟩
      have hd' : data.drop 3 = [UInt8.ofNat m.error.value] ++ r := by
        simpa [fieldBytes, ht] using hd
      have hr : data.drop 4 = r := (slice_eq hd' rfl).2
      refine ⟨UInt8.ofNat m.error.value, hr ▸ hd', m.error, ?_, ?_⟩
      · rw [UInt8.toNat_ofNat', Nat.mod_eq_of_lt m.error.value_lt]
        exact m.error.ofValue_value
      · rw [hr]
        conv_rhs => rw [← hc]
        simp [carried, ht]

theorem deserializeFields_auth {v : Int} {data r : Bytes} {m : PortPortMessage}
    (h : deserializeFields .auth v data = .ok (m, r)) : m.msgType = .auth := by
  obtain ⟨_, _, h⟩ := bind_eq_ok.mp h
  obtain ⟨_, _, h⟩ := bind_eq_ok.mp h
  cases h
  rfl

/-- The header: a start byte, a known type, version 1. -/
theorem deserialize_eq_ok {b : Bytes} {x : PortPortMessage × Bytes} :
    deserialize b = .ok x ↔
      ∃ t body, b = headerBytes t ++ body ∧ deserializeFields t 1 b = .ok x := by
  constructor
  · intro h
    unfold deserialize at h
    split at h
    · cases h
    obtain ⟨b0, h0, h⟩ := bind_eq_ok.mp h
    split at h
    · cases h
    rename_i hb0
    rw [ne_eq, not_not] at hb0
    obtain ⟨b1, h1, h⟩ := bind_eq_ok.mp h
    obtain ⟨t, ht, h⟩ := bind_eq_ok.mp h
    obtain ⟨b2, h2, h⟩ := bind_eq_ok.mp h
    dsimp only at h
    split at h
    · cases h
    rename_i hb2
    have hb2 : b2.toNat = 1 := not_not.mp hb2
    rw [index_iff] at h0 h1 h2
    have hv := PortPortMessageType.value_of_ofValue ht
    refine ⟨t, b.drop 3, ?_, by rwa [hb2] at h⟩
    rw [List.drop_zero] at h0
    rw [h0, h1, h2, headerBytes, ← hv, UInt8.ofNat_toNat, hb0, ← UInt8.ofNat_toNat (x := b2), hb2]
    rfl
  · rintro ⟨t, body, rfl, h⟩
    have h0 : index (headerBytes t ++ body) 0 = .ok 64 := rfl
    have h1 : index (headerBytes t ++ body) 1 = .ok (UInt8.ofNat t.value) := rfl
    have h2 : index (headerBytes t ++ body) 2 = .ok 1 := rfl
    have ht : PortPortMessageType.ofValue (UInt8.ofNat t.value).toNat = .ok t := by
      rw [UInt8.toNat_ofNat', Nat.mod_eq_of_lt t.value_lt]
      exact t.ofValue_value
    unfold deserialize
    rw [if_neg (by simp [headerBytes])]
    simp only [h0, h1, h2, ht, ok_bind, ne_eq, not_true_eq_false, if_false]
    exact h

/-- **The decoder accepts exactly the encodings**, AUTH frames apart: it returns `m` and `r` on
the buffers that are the encoding of `m` followed by `r`, where `m` has defaults in the fields
that its layout does not carry. -/
theorem deserialize_iff {m : PortPortMessage} {b r : Bytes} (hm : m.msgType ≠ .auth) :
    deserialize b = .ok (m, r) ↔
      m.version = 1 ∧ m.carried = m ∧ ∃ enc, m.serialize = .ok enc ∧ b = enc ++ r := by
  rw [deserialize_eq_ok]
  constructor
  · rintro ⟨t, body, rfl, h⟩
    by_cases ht : t = .auth
    · subst ht
      exact absurd (deserializeFields_auth h) hm
    · obtain ⟨rfl, hv, hc, hf, hd⟩ := (deserializeFields_iff ht).mp h
      refine ⟨hv, hc, _, (serialize_iff hv).mpr ⟨hf, rfl⟩, ?_⟩
      rw [List.append_assoc, ← hd]
      rfl
  · rintro ⟨hv, hc, enc, henc, rfl⟩
    obtain ⟨hf, rfl⟩ := (serialize_iff hv).mp henc
    refine ⟨m.msgType, m.fieldBytes ++ r, by simp, ?_⟩
    exact (deserializeFields_iff hm).mpr ⟨rfl, hv, hc, hf, rfl⟩

end PortPortMessage

end PortPort
