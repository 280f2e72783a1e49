-- Lines of a text. A line feed is one byte that occurs in no other character, so the lines of
-- the bytes of a text are the bytes of its lines.
import UnitAtlas.Proofs.Text.Utf8
import UnitAtlas.Text.Blank
import UnitAtlas.Text.Lines

namespace UnitAtlas.Lines

/-! ## Lines of characters -/

/-- The lines of a text, each with its line feed, if it has one. -/
def ofChars : List Char → List (List Char)
  | [] => []
  | c :: rest =>
    if c = '\n' then [c] :: ofChars rest
    else
      match ofChars rest with
      | [] => [[c]]
      | line :: later => (c :: line) :: later

/-- The lines of a text without the blanks around them. -/
def trimmed (text : String) : List String :=
  (ofChars text.toList).map fun line => Blank.trim (String.ofList line)

/-! ## Lines of bytes -/

/-- Lines with more in front of the first one. -/
def ahead (start : List UInt8) : List (List UInt8) → List (List UInt8)
  | [] => [start]
  | line :: later => (start ++ line) :: later

theorem raw_cons_of_ne (b : UInt8) (rest : List UInt8) (h : b ≠ 10) :
    raw (b :: rest) = ahead [b] (raw rest) := by
  rw [raw, if_neg h]
  cases raw rest <;> rfl

/-- Bytes that hold no line feed stand in front of the first line. -/
theorem raw_append (start rest : List UInt8) (hne : start ≠ []) (hplain : 10 ∉ start) :
    raw (start ++ rest) = ahead start (raw rest) := by
  induction start with
  | nil => exact absurd rfl hne
  | cons b more ih =>
    rw [List.mem_cons, not_or] at hplain
    obtain ⟨hb, hmore⟩ := hplain
    rw [List.cons_append, raw_cons_of_ne b _ (Ne.symm hb)]
    by_cases hnil : more = []
    · subst hnil
      rfl
    · rw [ih hnil hmore]
      cases raw rest <;> rfl

/-- The line feed is a byte of no other character. -/
theorem lineFeed_notMem_encodeChar {c : Char} (h : c ≠ '\n') : 10 ∉ Utf8.encodeChar c := by
  intro hmem
  have hc : c.toNat = 10 := Utf8.small_byte_eq hmem (by decide)
  exact h (Char.toNat_inj.mp hc)

/-- The lines of the bytes of a text are the bytes of its lines. -/
theorem raw_encode_ofList (cs : List Char) :
    raw (Utf8.encode (String.ofList cs)) =
      (ofChars cs).map fun line => Utf8.encode (String.ofList line) := by
  induction cs with
  | nil => rfl
  | cons c cs ih =>
    rw [Utf8.encode_ofList_cons]
    by_cases hc : c = '\n'
    · subst hc
      have hfeed : Utf8.encodeChar '\n' = [10] := rfl
      rw [ofChars, if_pos rfl, List.map_cons, ← ih, hfeed, List.singleton_append, raw, if_pos rfl,
        Utf8.encode_ofList_cons, hfeed, Utf8.encode_ofList_nil, List.append_nil]
    · rw [raw_append _ _ (Utf8.encodeChar_ne_nil c) (lineFeed_notMem_encodeChar hc), ih, ofChars,
        if_neg hc]
      cases ofChars cs with
      | nil =>
        simp only [List.map_nil, List.map_cons, ahead, Utf8.encode_ofList_cons,
          Utf8.encode_ofList_nil, List.append_nil]
      | cons line later => simp only [List.map_cons, ahead, Utf8.encode_ofList_cons]

theorem raw_encode (text : String) :
    raw (Utf8.encode text) =
      (ofChars text.toList).map fun line => Utf8.encode (String.ofList line) := by
  have h := raw_encode_ofList text.toList
  rwa [String.ofList_toList] at h

end UnitAtlas.Lines
