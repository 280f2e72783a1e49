-- The lines of a source. However its bytes are decoded, a line feed stays where it is and none is
-- added, so the text has a line for each line of bytes, and each is what these bytes come to alone.
import Mathlib.Data.List.Forall2
import UnitAtlas.Proofs.Text.Lines
import UnitAtlas.Proofs.Text.Lossy
import UnitAtlas.Source.Decoding

namespace UnitAtlas.Source

/-! ## Readings that keep breaks -/

section

variable {α β : Type} [DecidableEq α] [DecidableEq β]

/-- What stands before a break is read on its own, and the break as one, and nothing else is read
as a break. -/
structure KeepsBreaks (a : α) (b : β) (read : List α → List β) : Prop where
  append : ∀ xs ys, read (xs ++ a :: ys) = read xs ++ b :: read ys
  plain : ∀ xs, a ∉ xs → b ∉ read xs

/-- A reading that keeps breaks goes line by line. -/
theorem KeepsBreaks.splitOn_eq {a : α} {b : β} {read : List α → List β}
    (h : KeepsBreaks a b read) (xs : List α) :
    (read xs).splitOn b = (xs.splitOn a).map read := by
  by_cases hmem : a ∈ xs
  · obtain ⟨line, later, hxs, hline⟩ := List.eq_append_cons_of_mem hmem
    have hshorter : later.length < xs.length := by
      rw [hxs, List.length_append, List.length_cons]
      omega
    have hlater := h.splitOn_eq later
    rw [hxs, h.append, List.splitOn_append_cons_self_of_not_mem (h.plain line hline),
      List.splitOn_append_cons_self_of_not_mem hline, hlater, List.map_cons]
  · rw [List.splitOn_eq_singleton hmem, List.splitOn_eq_singleton (h.plain xs hmem),
      List.map_singleton]
termination_by xs.length

end

/-- Reading what may be broken. -/
theorem keepsBreaks_lossy : KeepsBreaks 10 '\n' Utf8.lossy :=
  ⟨Utf8.lossy_append, fun _ => Utf8.lineFeed_notMem_lossy⟩

/-- Reading each byte as the character of its number. -/
theorem keepsBreaks_ascii : KeepsBreaks 10 '\n' Utf8.ascii where
  append xs ys := by
    unfold Utf8.ascii
    rw [List.map_append, List.map_cons]
    rfl
  plain xs h hmem := by
    obtain ⟨x, hx, hfeed⟩ := List.mem_map.mp hmem
    have hne : x ≠ 10 := fun heq => h (heq ▸ hx)
    exact Utf8.ofNat_ne_lineFeed (fun hnumber => hne (UInt8.toNat_inj.mp hnumber)) hfeed

/-- Writing a text. -/
theorem keepsBreaks_encode :
    KeepsBreaks '\n' 10 fun cs : List Char => Utf8.encode (String.ofList cs) where
  append xs ys := by
    induction xs with
    | nil => exact Utf8.encode_ofList_cons '\n' ys
    | cons c xs ih =>
      simp only [List.cons_append, Utf8.encode_ofList_cons, List.append_assoc] at ih ⊢
      rw [ih]
  plain xs h := by
    induction xs with
    | nil => exact List.not_mem_nil
    | cons c xs ih =>
      obtain ⟨hc, hxs⟩ := not_or.mp (mt List.mem_cons.mpr h)
      rw [Utf8.encode_ofList_cons, List.mem_append, not_or]
      exact ⟨Lines.lineFeed_notMem_encodeChar (Ne.symm hc), ih hxs⟩

/-! ## Encodings -/

/-- How the bytes of a source are read. -/
inductive Encoding where
  | utf8
  | latin1
  | lossy
  deriving Repr, DecidableEq

/-- UTF-8 for what is that, else what the comment of the source names, else UTF-8 with what is
broken replaced. -/
def encodingOf (raw : Bytes) : Encoding :=
  if (Utf8.strict? raw).isSome then .utf8
  else if (codingCookie raw).any latin1Names.contains then .latin1
  else .lossy

/-- What a line of bytes comes to on its own. -/
def Encoding.Reads : Encoding → Bytes → List Char → Prop
  | .utf8, line, text => Utf8.strict? line = some (String.ofList text)
  | .latin1, line, text => text = (Source.latin1 line).toList
  | .lossy, line, text => text = Utf8.lossy line

theorem encodingOf_encode (text : String) : encodingOf (Utf8.encode text) = .utf8 := by
  unfold encodingOf
  rw [Utf8.strict?_encode]
  rfl

theorem decode_encode (text : String) : decode (Utf8.encode text) = text := by
  unfold decode
  rw [Utf8.strict?_encode]

theorem latin1_eq (raw : Bytes) : latin1 raw = String.ofList (Utf8.ascii raw) := rfl

/-- The three ways to decode a source. -/
theorem decode_cases (raw : Bytes) :
    (∃ text, raw = Utf8.encode text ∧ encodingOf raw = .utf8 ∧ decode raw = text) ∨
      (encodingOf raw = .latin1 ∧ decode raw = latin1 raw) ∨
      (encodingOf raw = .lossy ∧ decode raw = String.ofList (Utf8.lossy raw)) := by
  rcases hstrict : Utf8.strict? raw with _ | text
  · by_cases hcookie : (codingCookie raw).any latin1Names.contains = true
    · refine Or.inr (Or.inl ⟨?_, ?_⟩)
      · unfold encodingOf
        rw [hstrict, if_neg nofun, if_pos hcookie]
      · unfold decode
        rw [hstrict, if_pos hcookie]
    · refine Or.inr (Or.inr ⟨?_, ?_⟩)
      · unfold encodingOf
        rw [hstrict, if_neg nofun, if_neg hcookie]
      · unfold decode
        rw [hstrict, if_neg hcookie]
  · have hraw := (Utf8.strict?_eq_some_iff raw text).mp hstrict
    exact Or.inl ⟨text, hraw, hraw ▸ encodingOf_encode text, hraw ▸ decode_encode text⟩

/-! ## The lines of a decoded source -/

/-- The lines of a text. -/
def textLines (text : String) : List (List Char) := text.toList.splitOn '\n'

/-- Each line of the text is what the line of bytes at its place comes to. -/
theorem forall₂_reads (raw : Bytes) :
    List.Forall₂ (encodingOf raw).Reads (raw.splitOn 10) (textLines (decode raw)) := by
  unfold textLines
  rcases decode_cases raw with ⟨text, rfl, hencoding, htext⟩ | ⟨hencoding, htext⟩ |
    ⟨hencoding, htext⟩
  · have hsplit := keepsBreaks_encode.splitOn_eq text.toList
    rw [String.ofList_toList] at hsplit
    rw [hencoding, htext, hsplit, List.forall₂_map_left_iff, List.forall₂_same]
    exact fun line _ => Utf8.strict?_encode _
  · rw [hencoding, htext, latin1_eq, String.toList_ofList, keepsBreaks_ascii.splitOn_eq,
      List.forall₂_map_right_iff, List.forall₂_same]
    exact fun line _ => String.toList_ofList.symm
  · rw [hencoding, htext, String.toList_ofList, keepsBreaks_lossy.splitOn_eq,
      List.forall₂_map_right_iff, List.forall₂_same]
    exact fun line _ => rfl

/-- ASCII comes through in every encoding. -/
theorem Encoding.Reads.ascii {encoding : Encoding} {line : Bytes} {text : List Char}
    (h : encoding.Reads line text) (hascii : ∀ b ∈ line, b < 0x80) :
    Utf8.encode (String.ofList text) = line := by
  cases encoding with
  | utf8 => exact ((Utf8.strict?_eq_some_iff _ _).mp h).symm
  | latin1 =>
    have htext : text = (Source.latin1 line).toList := h
    rw [htext, String.ofList_toList, latin1_eq, Utf8.encode_ascii hascii]
  | lossy =>
    have htext : text = Utf8.lossy line := h
    rw [htext, Utf8.lossy_ascii hascii, Utf8.encode_ascii hascii]

/-- A text in UTF-8 is decoded to itself. Whatever the bytes of a source are, it has as many lines
as they have, each is what the line of bytes at its place comes to on its own, and a line of ASCII
comes through unchanged at its place. -/
theorem a_source_keeps_its_lines (raw : Bytes) :
    (∀ text, raw = Utf8.encode text → decode raw = text) ∧
      List.Forall₂ (encodingOf raw).Reads (raw.splitOn 10) (textLines (decode raw)) ∧
      ∀ (i : Nat) line, (raw.splitOn 10)[i]? = some line → (∀ b ∈ line, b < 0x80) →
        ∃ text, (textLines (decode raw))[i]? = some text ∧
          Utf8.encode (String.ofList text) = line := by
  have hreads := forall₂_reads raw
  refine ⟨?_, hreads, ?_⟩
  · rintro text rfl
    exact decode_encode text
  · intro i line hline hascii
    obtain ⟨hi, rfl⟩ := List.getElem?_eq_some_iff.mp hline
    have hi' : i < (textLines (decode raw)).length := hreads.length_eq ▸ hi
    exact ⟨_, List.getElem?_eq_getElem hi', (hreads.get hi hi').ascii hascii⟩

/-- A source whose first and last line break off within a character. -/
def cutShort : Bytes := [0xF0, 0x9F, 0x98, 10, 120, 61, 49, 10, 0xE9]

/-- The line between the broken ones stays the second one. -/
theorem a_line_behind_a_broken_character_is_kept :
    encodingOf cutShort = .lossy ∧ (cutShort.splitOn 10)[1]? = some [120, 61, 49] ∧
      (∀ b ∈ ([120, 61, 49] : Bytes), b < 0x80) ∧
      ∃ text, (textLines (decode cutShort))[1]? = some text ∧
        Utf8.encode (String.ofList text) = [120, 61, 49] := by
  have hencoding : encodingOf cutShort = .lossy := by decide +kernel
  have hline : (cutShort.splitOn 10)[1]? = some [120, 61, 49] := rfl
  have hascii : ∀ b ∈ ([120, 61, 49] : Bytes), b < 0x80 := by decide +kernel
  exact ⟨hencoding, hline, hascii, (a_source_keeps_its_lines cutShort).2.2 1 _ hline hascii⟩

end UnitAtlas.Source
