-- Laws of reading bytes that may be no text. A line feed is never part of a longer character: it
-- ends a broken one, as the end of the text does, and stays a line feed; and no other bytes are
-- read as one.
import Mathlib.Tactic.SplitIfs
import UnitAtlas.Proofs.Text.Utf8

namespace UnitAtlas.Utf8

/-! ## One character -/

theorem toNat_ofNat {n : Nat} (h : n < 0xD800) : (Char.ofNat n).toNat = n := by
  rw [Char.ofNat, dif_pos (Or.inl h)]
  rfl

/-- Only the number of the line feed is read as one. -/
theorem ofNat_ne_lineFeed {n : Nat} (h : n ≠ 10) : Char.ofNat n ≠ '\n' := by
  intro heq
  by_cases hvalid : n.isValidChar
  · rw [Char.ofNat, dif_pos hvalid] at heq
    exact h (congrArg Char.toNat heq)
  · rw [Char.ofNat, dif_neg hvalid] at heq
    exact absurd heq (by decide)

/-- What a character goes on with ends at a line feed as it does at the end of the text. -/
theorem continued_append (bits more : Nat) (rest later : List UInt8) :
    continued bits more (rest ++ 10 :: later) =
      ((continued bits more rest).1, (continued bits more rest).2 ++ 10 :: later) := by
  induction rest generalizing bits more with
  | nil => cases more <;> rfl
  | cons b rest ih =>
    cases more with
    | zero => rfl
    | succ more =>
      simp only [List.cons_append, continued]
      split
      · exact ih _ _
      · rfl

/-- Behind a lead, the second byte is above all of ASCII, and the bits so far make more than the
number of a line feed. -/
theorem lead?_spec {b : UInt8} {lead : Lead} (h : lead? b = some lead) :
    0x80 ≤ lead.low.toNat ∧ lead.high.toNat < 0xC0 ∧
      10 < lead.bits * 64 + lead.low.toNat % 64 := by
  unfold lead? at h
  simp only [UInt8.lt_iff_toNat_lt, ← UInt8.toNat_inj, UInt8.reduceToNat] at h
  split_ifs at h
  all_goals
    have hlead := Option.some.inj h
    subst hlead
    simp only [UInt8.reduceToNat]
    omega

theorem character_append (b : UInt8) (rest later : List UInt8) :
    character b (rest ++ 10 :: later) =
      ((character b rest).1, (character b rest).2 ++ 10 :: later) := by
  unfold character
  split
  · rfl
  · rcases hlead : lead? b with _ | lead
    · rfl
    · cases rest with
      | nil =>
        have hlow : ¬ lead.low ≤ 10 := by
          rw [UInt8.le_iff_toNat_le]
          exact Nat.not_le.mpr (Nat.lt_of_lt_of_le (by decide) (lead?_spec hlead).1)
        simp only [List.nil_append, hlow, false_and, if_false]
      | cons c rest =>
        simp only [List.cons_append]
        split
        · exact continued_append _ _ _ _
        · rfl

theorem continued_suffix (bits more : Nat) (rest : List UInt8) :
    (continued bits more rest).2 <:+ rest := by
  induction rest generalizing bits more with
  | nil => cases more <;> exact List.suffix_rfl
  | cons b rest ih =>
    cases more with
    | zero => exact List.suffix_rfl
    | succ more =>
      rw [continued]
      split
      · exact (ih _ _).trans (List.suffix_cons b rest)
      · exact List.suffix_rfl

/-- The bytes not used are the last ones. -/
theorem character_suffix (b : UInt8) (rest : List UInt8) : (character b rest).2 <:+ rest := by
  unfold character
  split
  · exact List.suffix_rfl
  · split
    · split
      · rename_i c more _ _
        exact (continued_suffix _ _ _).trans (List.suffix_cons c more)
      · exact List.suffix_rfl
    · exact List.suffix_rfl

/-- Bits that go on stand for no line feed. -/
theorem continued_ne_lineFeed {bits : Nat} (h : 10 < bits) (more : Nat) (rest : List UInt8) :
    (continued bits more rest).1 ≠ some '\n' := by
  induction rest generalizing bits more with
  | nil =>
    cases more with
    | zero => exact fun hc => ofNat_ne_lineFeed (by omega) (Option.some.inj hc)
    | succ more => exact (Option.some_ne_none _).symm
  | cons b rest ih =>
    cases more with
    | zero => exact fun hc => ofNat_ne_lineFeed (by omega) (Option.some.inj hc)
    | succ more =>
      rw [continued]
      split
      · exact ih (by omega) more
      · exact (Option.some_ne_none _).symm

/-- A byte that is no line feed starts no line feed. -/
theorem character_ne_lineFeed {b : UInt8} (hb : b ≠ 10) (rest : List UInt8) :
    (character b rest).1 ≠ some '\n' := by
  have hnumber : b.toNat ≠ 10 := fun h => hb (UInt8.toNat_inj.mp h)
  unfold character
  split
  · exact fun hc => ofNat_ne_lineFeed hnumber (Option.some.inj hc)
  · split
    · split
      · rename_i lead c more hlead hc
        obtain ⟨hlow, hhigh, hbits⟩ := lead?_spec hlead
        rw [UInt8.le_iff_toNat_le, UInt8.le_iff_toNat_le] at hc
        exact continued_ne_lineFeed (by omega) _ _
      · exact nofun
    · exact nofun

/-! ## Whole texts -/

theorem lossy_cons (b : UInt8) (rest : List UInt8) :
    lossy (b :: rest) = (character b rest).1.getD replacement :: lossy (character b rest).2 := by
  rw [lossy]

/-- What is read behind each character goes by the bytes that are left. -/
theorem lossy_induction {P : List UInt8 → Prop} (nil : P [])
    (cons : ∀ b rest, P (character b rest).2 → P (b :: rest)) (bytes : List UInt8) : P bytes := by
  fun_induction lossy bytes with
  | case1 => exact nil
  | case2 b rest ih => exact cons b rest ih

/-- A line feed is read as one, whatever stands before it, and reading starts anew behind it. -/
theorem lossy_append (bytes later : List UInt8) :
    lossy (bytes ++ 10 :: later) = lossy bytes ++ '\n' :: lossy later := by
  induction bytes using lossy_induction with
  | nil =>
    have hfeed : character 10 later = (some '\n', later) := rfl
    rw [List.nil_append, lossy_cons, hfeed, lossy]
    rfl
  | cons b rest ih =>
    rw [List.cons_append, lossy_cons, character_append, ih, lossy_cons, List.cons_append]

/-- Nothing else is read as a line feed. -/
theorem lineFeed_notMem_lossy {bytes : List UInt8} (h : 10 ∉ bytes) : '\n' ∉ lossy bytes := by
  induction bytes using lossy_induction with
  | nil => rw [lossy]; exact List.not_mem_nil
  | cons b rest ih =>
    obtain ⟨hb, hrest⟩ := not_or.mp (mt List.mem_cons.mpr h)
    rw [lossy_cons, List.mem_cons, not_or]
    refine ⟨?_, ih fun hmem => hrest ((character_suffix b rest).subset hmem)⟩
    rcases hc : (character b rest).1 with _ | c
    · decide
    · intro heq
      exact character_ne_lineFeed (Ne.symm hb) rest (hc.trans (congrArg some heq.symm))

/-! ## ASCII -/

/-- The characters of ASCII bytes. -/
def ascii (bytes : List UInt8) : List Char := bytes.map fun b => Char.ofNat b.toNat

theorem encodeChar_ascii {b : UInt8} (h : b < 0x80) : encodeChar (Char.ofNat b.toNat) = [b] := by
  have hb : b.toNat < 0x80 := UInt8.lt_iff_toNat_lt.mp h
  have hc : (Char.ofNat b.toNat).val.toNat = b.toNat := toNat_ofNat (by omega)
  unfold encodeChar String.utf8EncodeChar
  simp only [hc]
  rw [if_pos (by omega), UInt8.ofNat_toNat]

theorem encode_ascii {bytes : List UInt8} (h : ∀ b ∈ bytes, b < 0x80) :
    encode (String.ofList (ascii bytes)) = bytes := by
  induction bytes with
  | nil => rfl
  | cons b rest ih =>
    obtain ⟨hb, hrest⟩ := List.forall_mem_cons.mp h
    rw [ascii, List.map_cons, encode_ofList_cons, encodeChar_ascii hb, ← ascii, ih hrest]
    rfl

theorem lossy_ascii {bytes : List UInt8} (h : ∀ b ∈ bytes, b < 0x80) :
    lossy bytes = ascii bytes := by
  induction bytes with
  | nil => rw [lossy]; rfl
  | cons b rest ih =>
    obtain ⟨hb, hrest⟩ := List.forall_mem_cons.mp h
    have hc : character b rest = (some (Char.ofNat b.toNat), rest) := if_pos hb
    rw [lossy_cons, hc, ih hrest]
    rfl

end UnitAtlas.Utf8
