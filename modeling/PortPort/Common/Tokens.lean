import Mathlib.Data.List.TakeDrop
import PortPort.Common.CodecLemmas

/-! # Tokens in AUTH frames

The length field of an AUTH frame counts the characters of the token, and `deserialize` reads as
many bytes. -/

namespace PortPort
open PortPortMessage BigEndian

/-- `s.isascii()`. -/
def IsAscii (s : String) : Prop := ∀ c ∈ s.toList, c.val ≤ 127

instance (s : String) : Decidable (IsAscii s) :=
  inferInstanceAs (Decidable (∀ c ∈ s.toList, c.val ≤ 127))

theorem encodeUtf8_eq (s : String) : encodeUtf8 s = s.toList.flatMap String.utf8EncodeChar := by
  unfold encodeUtf8
  rw [String.toUTF8_eq_toByteArray, ← String.utf8Encode_toList, List.utf8Encode]
  simp

theorem encodeUtf8_inj {s t : String} : encodeUtf8 s = encodeUtf8 t ↔ s = t := by
  constructor
  · intro h
    rw [← String.toByteArray_inj]
    exact ByteArray.ext (Array.toList_inj.mp h)
  · rintro rfl
    rfl

theorem decodeUtf8_iff {b : Bytes} {s : String} : decodeUtf8 b = .ok s ↔ b = encodeUtf8 s := by
  unfold decodeUtf8 String.fromUTF8?
  by_cases h : ByteArray.IsValidUTF8 ⟨b.toArray⟩
  · have hs : encodeUtf8 (String.fromUTF8 ⟨b.toArray⟩ h) = b := rfl
    rw [dif_pos h]
    constructor
    · intro he
      cases he
      exact hs.symm
    · intro hb
      rw [encodeUtf8_inj.mp (hs.trans hb)]
  · rw [dif_neg h]
    refine ⟨nofun, ?_⟩
    rintro rfl
    exact absurd s.isValidUTF8 h

theorem length_flatMap_utf8 (l : List Char) : l.length ≤ (l.flatMap String.utf8EncodeChar).length ∧
    ((l.flatMap String.utf8EncodeChar).length ≤ l.length ↔ ∀ c ∈ l, c.val ≤ 127) := by
  induction l with
  | nil => simp
  | cons c l ih =>
    obtain ⟨hle, hiff⟩ := ih
    have hpos := c.utf8Size_pos
    have hone := c.utf8Size_eq_one_iff
    rw [List.flatMap_cons, List.length_append, String.length_utf8EncodeChar, List.length_cons,
      List.forall_mem_cons, ← hiff, ← hone]
    omega

/-- Exactly the tokens of ASCII characters are as many bytes as characters. -/
theorem take_encodeUtf8 {t : String} : (encodeUtf8 t).take t.length = encodeUtf8 t ↔ IsAscii t := by
  rw [List.take_eq_self_iff, encodeUtf8_eq, ← String.length_toList]
  exact (length_flatMap_utf8 t.toList).2

/-- A token of ASCII characters that is cut short is a token again. -/
theorem encodeUtf8_take {t : String} (h : IsAscii t) (n : Nat) :
    (encodeUtf8 t).take n = encodeUtf8 (String.ofList (t.toList.take n)) := by
  have hlist (l : List Char) (hl : ∀ c ∈ l, c.val ≤ 127) (n : Nat) :
      (l.flatMap String.utf8EncodeChar).take n = (l.take n).flatMap String.utf8EncodeChar := by
    induction l generalizing n with
    | nil => simp
    | cons c l ih =>
      rw [List.forall_mem_cons, ← c.utf8Size_eq_one_iff] at hl
      have hc : (String.utf8EncodeChar c).length = 1 := (String.length_utf8EncodeChar c).trans hl.1
      cases n with
      | zero => rfl
      | succ n =>
        rw [List.flatMap_cons, List.take_append, hc, Nat.add_sub_cancel, ih hl.2,
          List.take_of_length_le (by omega), List.take_succ_cons, List.flatMap_cons]
  rw [encodeUtf8_eq, encodeUtf8_eq, hlist _ h, String.toList_ofList]

/-- What `deserialize` makes of the bytes behind the length field of an AUTH frame. -/
theorem deserialize_token {n : Nat} (q : Bytes) (h : n < 256 ^ 2) :
    deserialize (headerBytes .auth ++ (toBE 2 n ++ q)) =
      (decodeUtf8 (q.take n)).map fun auth => ({ msgType := .auth, auth }, q.drop n) := by
  let data := headerBytes .auth ++ (toBE 2 n ++ q)
  have hlength : unpack 2 (slice data 3 5) = .ok (n : Int) := by
    refine (unpack_slice_iff (i := 3) (w := 2)).mpr ⟨⟨by omega, by omega⟩, ?_⟩
    simp [data, headerBytes]
  have htoken : data.drop 5 = q := by
    simp [data, headerBytes]
  have hfields : deserializeFields .auth 1 data =
      (decodeUtf8 (q.take n)).map fun auth => ({ msgType := .auth, auth }, q.drop n) := by
    unfold deserializeFields
    simp only [hlength, ok_bind, Int.toNat_natCast]
    rw [slice, htoken, ← List.drop_drop, htoken, Nat.add_sub_cancel_left]
    cases decodeUtf8 (q.take n) <;> rfl
  have hheader : deserialize data = deserializeFields .auth 1 data := by
    unfold deserialize
    simp [data, headerBytes, index, VERSION, PortPortMessageType.value, PortPortMessageType.ofValue,
      ok_bind]
  exact hheader.trans hfields

end PortPort
