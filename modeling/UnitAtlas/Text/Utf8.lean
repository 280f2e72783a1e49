-- UTF-8 text from bytes that may not be UTF-8. Each longest run of bytes that starts a
-- character but does not end one counts as one broken character.

namespace UnitAtlas.Utf8

/-! ## One character -/

/-- What the first byte of a character of several bytes says: the bits it holds, between
which bytes the second one lies, and how many more follow that one. -/
structure Lead where
  bits : Nat
  low : UInt8
  high : UInt8
  more : Nat

def lead? (b : UInt8) : Option Lead :=
  if b < 0xC2 then none
  else if b < 0xE0 then some ⟨b.toNat - 0xC0, 0x80, 0xBF, 0⟩
  else if b = 0xE0 then some ⟨0, 0xA0, 0xBF, 1⟩
  else if b = 0xED then some ⟨0x0D, 0x80, 0x9F, 1⟩
  else if b < 0xF0 then some ⟨b.toNat - 0xE0, 0x80, 0xBF, 1⟩
  else if b = 0xF0 then some ⟨0, 0x90, 0xBF, 2⟩
  else if b < 0xF4 then some ⟨b.toNat - 0xF0, 0x80, 0xBF, 2⟩
  else if b = 0xF4 then some ⟨4, 0x80, 0x8F, 2⟩
  else none

/-- The code point of `bits` and `more` further bytes, and the bytes not used. -/
def continued (bits : Nat) : Nat → List UInt8 → Option Char × List UInt8
  | 0, rest => (some (Char.ofNat bits), rest)
  | _ + 1, [] => (none, [])
  | more + 1, b :: rest =>
    if 0x80 ≤ b ∧ b ≤ 0xBF then continued (bits * 64 + b.toNat % 64) more rest
    else (none, b :: rest)

/-- The character that starts with `b`, none for a broken one, and the bytes not used. -/
def character (b : UInt8) (rest : List UInt8) : Option Char × List UInt8 :=
  if b < 0x80 then (some (Char.ofNat b.toNat), rest)
  else
    match lead? b, rest with
    | some lead, c :: more =>
      if lead.low ≤ c ∧ c ≤ lead.high then
        continued (lead.bits * 64 + c.toNat % 64) lead.more more
      else (none, c :: more)
    | _, _ => (none, rest)

theorem length_continued (bits more : Nat) (bytes : List UInt8) :
    (continued bits more bytes).2.length ≤ bytes.length := by
  induction bytes generalizing bits more with
  | nil => cases more <;> simp [continued]
  | cons b rest ih =>
    cases more with
    | zero => simp [continued]
    | succ more =>
      simp only [continued]
      split
      · exact Nat.le_succ_of_le (ih _ _)
      · simp

theorem length_character (b : UInt8) (rest : List UInt8) :
    (character b rest).2.length ≤ rest.length := by
  unfold character
  split
  · simp
  · split
    · split
      · exact Nat.le_succ_of_le (length_continued _ _ _)
      · simp
    · simp

/-! ## Whole texts -/

/-- What stands for a broken character. -/
def replacement : Char := '\uFFFD'

/-- The characters of a byte string, broken ones replaced. -/
def lossy : List UInt8 → List Char
  | [] => []
  | b :: rest =>
    (character b rest).1.getD replacement :: lossy (character b rest).2
termination_by bytes => bytes.length
decreasing_by exact Nat.lt_succ_of_le (length_character b rest)

/-- The bytes of a character. -/
def encodeChar (c : Char) : List UInt8 := String.utf8EncodeChar c

/-- The bytes of a text. -/
def encode (s : String) : List UInt8 := s.toUTF8.data.toList

/-- The text of bytes that are UTF-8 throughout. -/
def strict? (bytes : List UInt8) : Option String := String.fromUTF8? ⟨bytes.toArray⟩

end UnitAtlas.Utf8
