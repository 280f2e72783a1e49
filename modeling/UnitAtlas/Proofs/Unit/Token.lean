-- What the text of a token says. Its digits are those of the first bytes of the digest, and they
-- can be read back, so two tokens are the same exactly when they are written alike.
import Mathlib.Data.List.Induction
import UnitAtlas.Proofs.Unit.Identity

namespace UnitAtlas

/-! ## Digits in pairs -/

namespace Hex

theorem digitValue?_upperDigits {d : Nat} (hd : d < 16) :
    digitValue? 16 (upperDigits.getD d '0') = some d := by
  have hall : ∀ d : Fin 16, digitValue? 16 (upperDigits.getD d '0') = some d.1 := by decide
  exact hall ⟨d, hd⟩

/-- Bytes that are written in upper-case digits are read back. -/
theorem decode?_upper (bytes : List UInt8) : decode? (upper bytes).toList = some bytes := by
  rw [upper, String.toList_ofList]
  induction bytes with
  | nil => rfl
  | cons b bytes ih =>
    have hb := b.toNat_lt
    have hbyte : (b.toNat / 16 * 16 + b.toNat % 16).toUInt8 = b := by
      rw [Nat.div_add_mod', Nat.toUInt8, UInt8.ofNat_toNat]
    rw [List.flatMap_cons, pair, List.cons_append, List.cons_append, List.nil_append, decode?,
      digitValue?_upperDigits (by omega), digitValue?_upperDigits (Nat.mod_lt _ (by omega)), ih]
    exact congrArg (fun byte => some (byte :: bytes)) hbyte

end Hex

/-! ## Tokens -/

namespace Identity

/-- The bytes of a number are the ones it was made of. -/
theorem reverse_littleEndian_ofBigEndian (bytes : Bytes) :
    (littleEndian bytes.length (ofBigEndian bytes)).reverse = bytes := by
  -- The last byte is the lowest part of the number, so the induction is from behind.
  induction bytes using List.reverseRecOn with
  | nil => rfl
  | append_singleton bytes b ih =>
    have hb := b.toNat_lt
    have hnumber : ofBigEndian (bytes ++ [b]) = ofBigEndian bytes * 256 + b.toNat := by
      rw [ofBigEndian, List.foldl_append]
      rfl
    have hlow : (ofBigEndian bytes * 256 + b.toNat).toUInt8 = b := by
      apply UInt8.toNat_inj.mp
      rw [Nat.toUInt8, UInt8.toNat_ofNat']
      omega
    have hhigh : (ofBigEndian bytes * 256 + b.toNat) / 256 = ofBigEndian bytes := by omega
    rw [List.length_append, List.length_singleton, hnumber, littleEndian_succ, hlow, hhigh,
      List.reverse_cons, ih]

end Identity

namespace IdentityToken

/-- The text of a token is the start of the digest, two digits a byte. -/
theorem text_ofUnit (u : CodeUnit) :
    (ofUnit u).text = Hex.upper ((Identity.digest u).take 8) := by
  have hlength : ((Identity.digest u).take 8).length = 8 := by
    rw [Identity.digest, Identity.digestWith_eq, List.length_take, Identity.length_sha256]
    rfl
  have hbytes := Identity.reverse_littleEndian_ofBigEndian ((Identity.digest u).take 8)
  rw [hlength] at hbytes
  rw [text, ofUnit, hbytes]

/-- The start of a unit's digest can be read off the text of its token. -/
theorem decode?_text_ofUnit (u : CodeUnit) :
    Hex.decode? (ofUnit u).text.toList = some ((Identity.digest u).take 8) := by
  rw [text_ofUnit, Hex.decode?_upper]

/-- Tokens are written alike only if they are the same. -/
theorem text_ofUnit_inj {u v : CodeUnit} :
    (ofUnit u).text = (ofUnit v).text ↔ ofUnit u = ofUnit v := by
  refine ⟨fun h => ?_, congrArg text⟩
  have hbytes := decode?_text_ofUnit u
  rw [h, decode?_text_ofUnit v, Option.some.injEq] at hbytes
  exact congrArg (fun bytes => IdentityToken.mk (Identity.ofBigEndian bytes)) hbytes.symm

end IdentityToken

end UnitAtlas
