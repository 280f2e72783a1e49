-- Laws of UTF-8: bytes are a text exactly when they are its encoding, and an encoding is put
-- together from the encodings of the characters.
import UnitAtlas.Text.Utf8

namespace UnitAtlas.Utf8

/-! ## Characters -/

theorem encodeChar_ne_nil (c : Char) : encodeChar c ≠ [] := String.utf8EncodeChar_ne_nil

/-- Below 0x80 stand only the characters that are one byte. -/
theorem small_byte_eq {c : Char} {b : UInt8} (hb : b ∈ encodeChar c) (hsmall : b.toNat < 0x80) :
    c.toNat = b.toNat := by
  have hc : c.val.toNat = c.toNat := rfl
  unfold encodeChar String.utf8EncodeChar at hb
  simp only [hc] at hb
  split at hb
  · rw [List.mem_singleton] at hb
    subst hb
    rw [UInt8.toNat_ofNat', Nat.mod_eq_of_lt (by omega)]
  · exfalso
    -- The bytes of longer encodings all carry the high bit.
    split at hb
    · simp only [List.mem_cons, List.not_mem_nil, or_false] at hb
      rcases hb with rfl | rfl <;> simp only [UInt8.toNat_ofNat'] at hsmall <;> omega
    · split at hb
      · simp only [List.mem_cons, List.not_mem_nil, or_false] at hb
        rcases hb with rfl | rfl | rfl <;> simp only [UInt8.toNat_ofNat'] at hsmall <;> omega
      · simp only [List.mem_cons, List.not_mem_nil, or_false] at hb
        rcases hb with rfl | rfl | rfl | rfl <;> simp only [UInt8.toNat_ofNat'] at hsmall <;> omega

/-! ## Whole texts -/

theorem encode_ofList_nil : encode (String.ofList []) = [] := rfl

theorem encode_ofList_cons (c : Char) (cs : List Char) :
    encode (String.ofList (c :: cs)) = encodeChar c ++ encode (String.ofList cs) := by
  unfold encode encodeChar
  rw [String.toUTF8_eq_toByteArray, String.toUTF8_eq_toByteArray, String.toByteArray_ofList,
    String.toByteArray_ofList, List.utf8Encode_cons, List.utf8Encode_singleton,
    ByteArray.data_append, Array.toList_append, List.data_toByteArray]

/-- Reading accepts the encoding of a text, and nothing else. -/
theorem strict?_eq_some_iff (bytes : List UInt8) (s : String) :
    strict? bytes = some s ↔ bytes = encode s := by
  unfold strict? String.fromUTF8? encode
  constructor
  · intro h
    split at h
    · cases h
      rfl
    · cases h
  · intro h
    subst h
    have hv : (ByteArray.mk s.toUTF8.data.toList.toArray).IsValidUTF8 := s.isValidUTF8
    rw [dif_pos hv]
    rfl

theorem strict?_encode (s : String) : strict? (encode s) = some s :=
  (strict?_eq_some_iff _ _).mpr rfl

/-- Texts are told by their bytes. -/
theorem encode_inj {s t : String} : encode s = encode t ↔ s = t := by
  refine ⟨fun h => ?_, congrArg _⟩
  have hread := congrArg strict? h
  rw [strict?_encode, strict?_encode] at hread
  exact Option.some.inj hread

end UnitAtlas.Utf8
