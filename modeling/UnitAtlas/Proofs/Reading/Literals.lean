-- Whole numbers keep their values. A literal may be written in four bases, with its digits set
-- apart and marked as long; whatever it looks like, it becomes the number that its digits stand
-- for, as long as that is a signed word, and else stays as the text it is.
import Mathlib.Data.List.DropRight
import Mathlib.Data.Nat.Digits.Defs
import UnitAtlas.Reading.Literal

namespace UnitAtlas

/-! ## Digits -/

namespace Numeral

/-- The character is written for a digit. Letters count the same in both cases. -/
structure IsDigit (base digit : Nat) (c : Char) : Prop where
  lt : digit < base
  char : c.toLower = Nat.digitChar digit

/-- The number that digits stand for, the highest digit first. -/
def value (base : Nat) (digits : List Nat) : Nat := Nat.ofDigits base digits.reverse

theorem value_eq_foldl (base : Nat) (ds : List Nat) :
    value base ds = ds.foldl (fun n d => n * base + d) 0 := by
  rw [value, Nat.ofDigits_eq_foldr, List.foldr_reverse]
  congr
  funext n d
  rw [Nat.cast_id, Nat.add_comm, Nat.mul_comm]

theorem digitValue?_digitChar {base d : Nat} (hbase : base ≤ 16) (hd : d < base) :
    Hex.digitValue? base (Nat.digitChar d) = some d := by
  have hall : ∀ (base : Fin 17) (d : Fin 16), d.1 < base.1 →
      Hex.digitValue? base (Nat.digitChar d) = some d.1 := by decide
  exact hall ⟨base, by omega⟩ ⟨d, by omega⟩ hd

theorem le_foldl {base : Nat} (hbase : 0 < base) (ds : List Nat) (n : Nat) :
    n ≤ ds.foldl (fun n d => n * base + d) n := by
  induction ds generalizing n with
  | nil => exact Nat.le_refl n
  | cons d ds ih =>
    calc n ≤ n * base := Nat.le_mul_of_pos_right n hbase
      _ ≤ n * base + d := Nat.le_add_right _ _
      _ ≤ _ := ih _

/-- Digits are refused from the first one on that takes their number to the bound. Since numbers
only grow with more digits, that is when the whole number is out of bounds. -/
theorem digits_map_digitChar {base bound : Nat} (hbase : base ≤ 16) {ds : List Nat}
    (hds : ∀ d ∈ ds, d < base) {n : Nat} (hn : n < bound) :
    digits base bound n (ds.map Nat.digitChar) =
      if ds.foldl (fun n d => n * base + d) n < bound then
        .ok (ds.foldl (fun n d => n * base + d) n)
      else .error .tooLarge := by
  induction ds generalizing n with
  | nil => simp [digits, hn]
  | cons d ds ih =>
    obtain ⟨hd, hds⟩ := List.forall_mem_cons.mp hds
    rw [List.map_cons, digits, digitValue?_digitChar hbase hd, List.foldl_cons]
    by_cases hnext : n * base + d < bound
    · exact (if_pos hnext).trans (ih hds hnext)
    · have hle := le_foldl (Nat.zero_lt_of_lt hd) ds (n * base + d)
      rw [if_neg (by omega)]
      exact if_neg hnext

/-- A lowered digit is a digit of the language or one of the first six letters. -/
theorem digitChar_mem {d : Nat} (hd : d < 16) : Nat.digitChar d ∈ Hex.lowerDigits := by
  have hall : ∀ d : Fin 16, Nat.digitChar d ∈ Hex.lowerDigits := by decide
  exact hall ⟨d, hd⟩

theorem digitChar_ne {d : Nat} (hd : d < 16) {c : Char} (hc : c ∉ Hex.lowerDigits) :
    Nat.digitChar d ≠ c :=
  fun h => hc (h ▸ digitChar_mem hd)

theorem signed_cons_of_ne {base : Nat} {c : Char} (hminus : c ≠ '-') (hplus : c ≠ '+')
    (cs : List Char) :
    signed base (c :: cs) = (unsigned base signedBound (c :: cs)).map Int.ofNat := by
  unfold signed
  split
  · cases ‹c :: cs = _›
    exact absurd rfl hminus
  · unfold natural
    split
    · cases ‹c :: cs = []›
    · cases ‹c :: cs = _›
      exact absurd rfl hplus
    · rfl

/-- Digits without a sign are read as their number, if that is a signed word. -/
theorem signed_map_digitChar {base : Nat} (hbase : base ≤ 16) {ds : List Nat} (hne : ds ≠ [])
    (hds : ∀ d ∈ ds, d < base) :
    signed base (ds.map Nat.digitChar) =
      if value base ds < signedBound then .ok (value base ds : Int) else .error .tooLarge := by
  obtain ⟨d, rest, rfl⟩ := List.exists_cons_of_ne_nil hne
  have hd : d < 16 := Nat.lt_of_lt_of_le (hds d List.mem_cons_self) hbase
  have hdigits := digits_map_digitChar hbase hds (show 0 < signedBound by decide)
  rw [← value_eq_foldl] at hdigits
  rw [List.map_cons] at hdigits ⊢
  rw [signed_cons_of_ne (digitChar_ne hd (by decide)) (digitChar_ne hd (by decide)), unsigned,
    hdigits]
  split <;> rfl

end Numeral

namespace Reading

open Numeral

/-! ## Literals -/

/-- Digits of a base with single underscores between them. -/
inductive Grouped (base : Nat) : List Char → List Nat → Prop
  | last {c : Char} {d : Nat} (h : IsDigit base d c) : Grouped base [c] [d]
  | next {c : Char} {d : Nat} {cs : List Char} {ds : List Nat} (h : IsDigit base d c)
      (hrest : Grouped base cs ds) : Grouped base (c :: cs) (d :: ds)
  | apart {c : Char} {d : Nat} {cs : List Char} {ds : List Nat} (h : IsDigit base d c)
      (hrest : Grouped base cs ds) : Grouped base (c :: '_' :: cs) (d :: ds)

/-- The base that a letter behind a zero tells of. -/
def markedBase? : Char → Option Nat
  | 'x' | 'X' => some 16
  | 'o' | 'O' => some 8
  | 'b' | 'B' => some 2
  | _ => none

/-- The number that a whole number literal stands for. -/
inductive Denotes : List Char → Nat → Prop
  | marked {mark : Char} {base : Nat} {gap cs long : List Char} {ds : List Nat}
      (hmark : markedBase? mark = some base) (hgap : gap ∈ [[], ['_']]) (hcs : Grouped base cs ds)
      (hlong : long ∈ [[], ['l'], ['L']]) :
      Denotes ('0' :: mark :: gap ++ cs ++ long) (value base ds)
  | decimal {cs long : List Char} {ds : List Nat} (hcs : Grouped 10 cs ds)
      (hfirst : ds.head? ≠ some 0 ∨ ∀ d ∈ ds, d = 0) (hlong : long ∈ [[], ['l'], ['L']]) :
      Denotes (cs ++ long) (value 10 ds)

theorem toLower_eq_l (c : Char) : (c == 'l' || c == 'L') = (c.toLower == 'l') := by
  unfold Char.toLower
  split
  · rename_i hupper
    obtain ⟨hfirst, hlast⟩ := hupper
    rw [ge_iff_le, UInt32.le_iff_toNat_le] at hfirst
    rw [UInt32.le_iff_toNat_le] at hlast
    rw [Bool.eq_iff_iff]
    simp [Char.ext_iff, UInt32.ext_iff] at hfirst hlast ⊢
    omega
  · rename_i hupper
    have hne : c ≠ 'L' := by
      rintro rfl
      exact hupper (by decide)
    simp [hne]

/-- Letters may be lowered before or after the mark of a long number goes. -/
theorem map_toLower_withoutLongMark (cs : List Char) :
    (withoutLongMark cs).map Char.toLower =
      (cs.map Char.toLower).rdropWhile (· == 'l') := by
  rw [withoutLongMark, List.rdropWhile, ← List.map_reverse, List.dropWhile_map, List.map_reverse]
  congr
  funext c
  exact toLower_eq_l c

/-- Without underscores and in lower case, digits are those of their values. -/
theorem Grouped.lowered {base : Nat} {cs : List Char} {ds : List Nat} (h : Grouped base cs ds)
    (hbase : base ≤ 16) :
    (cs.filter (· ≠ '_')).map Char.toLower = ds.map Nat.digitChar := by
  have hdigit : ∀ {c d} (rest : List Char), IsDigit base d c →
      ((c :: rest).filter (· ≠ '_')).map Char.toLower =
        Nat.digitChar d :: (rest.filter (· ≠ '_')).map Char.toLower := by
    rintro c d rest ⟨hd, hc⟩
    have hne : c ≠ '_' := by
      rintro rfl
      exact digitChar_ne (Nat.lt_of_lt_of_le hd hbase) (by decide) hc.symm
    rw [List.filter_cons_of_pos (by simpa using hne), List.map_cons, hc]
  induction h with
  | last h => exact hdigit [] h
  | next h _ ih => rw [hdigit _ h, ih, List.map_cons]
  | apart h _ ih => rw [hdigit _ h, List.filter_cons_of_neg (by simp), ih, List.map_cons]

theorem Grouped.lt {base : Nat} {cs : List Char} {ds : List Nat} (h : Grouped base cs ds) :
    ∀ d ∈ ds, d < base := by
  induction h with
  | last h => exact List.forall_mem_singleton.mpr h.lt
  | next h _ ih => exact List.forall_mem_cons.mpr ⟨h.lt, ih⟩
  | apart h _ ih => exact List.forall_mem_cons.mpr ⟨h.lt, ih⟩

theorem Grouped.ne_nil {base : Nat} {cs : List Char} {ds : List Nat} (h : Grouped base cs ds) :
    ds ≠ [] := by
  cases h <;> exact List.cons_ne_nil _ _

/-- The letters of a literal as they are read: what stands in front, then the digits. -/
theorem lowered_literal (front : List Char) {base : Nat} {cs long : List Char} {ds : List Nat}
    (hcs : Grouped base cs ds) (hbase : base ≤ 16) (hlong : long ∈ [[], ['l'], ['L']]) :
    (withoutLongMark ((front ++ cs ++ long).filter (· ≠ '_'))).map Char.toLower =
      (front.filter (· ≠ '_')).map Char.toLower ++ ds.map Nat.digitChar := by
  rw [map_toLower_withoutLongMark, List.filter_append, List.filter_append, List.map_append,
    List.map_append, hcs.lowered hbase]
  -- The last digit is no mark, so nothing but the mark is taken away.
  have hdigits : ((front.filter (· ≠ '_')).map Char.toLower ++
      ds.map Nat.digitChar).rdropWhile (· == 'l') =
        (front.filter (· ≠ '_')).map Char.toLower ++ ds.map Nat.digitChar := by
    obtain ⟨init, d, rfl⟩ := (List.eq_nil_or_concat' ds).resolve_left hcs.ne_nil
    have hd : d < base := hcs.lt d (by simp)
    rw [List.map_append, List.map_singleton, ← List.append_assoc]
    apply List.rdropWhile_concat_neg
    rw [beq_iff_eq]
    exact digitChar_ne (Nat.lt_of_lt_of_le hd hbase) (by decide)
  have hmark : (long.filter (· ≠ '_')).map Char.toLower ∈ [[], ['l']] := by
    revert long
    decide
  rcases List.mem_pair.mp hmark with hmark | hmark
  · rw [hmark, List.append_nil, hdigits]
  · rw [hmark, List.rdropWhile_concat_pos (· == 'l') _ _ (beq_self_eq_true _), hdigits]

/-- Which base is read is told by the two characters in front. -/
theorem wholeValue_of_marked {mark : Char} {base : Nat} (h : markedBase? mark = some base)
    (cs : List Char) : wholeValue ('0' :: mark.toLower :: cs) = signed base cs := by
  unfold markedBase? at h
  split at h <;> cases h <;> rfl

/-- Digits of the base ten have no such characters among them. -/
theorem wholeValue_map_digitChar {ds : List Nat} (h : ∀ d ∈ ds, d < 10) :
    wholeValue (ds.map Nat.digitChar) = signed 10 (ds.map Nat.digitChar) := by
  have hall : ∀ d : Fin 10, Nat.digitChar d ∉ ['x', 'o', 'b'] := by decide
  have hmarks : ∀ c ∈ ['x', 'o', 'b'], ∀ cs, ds.map Nat.digitChar ≠ '0' :: c :: cs := by
    intro c hc cs hcs
    have hmem : c ∈ ds.map Nat.digitChar := by
      rw [hcs]
      exact List.mem_cons_of_mem _ List.mem_cons_self
    obtain ⟨d, hd, rfl⟩ := List.mem_map.mp hmem
    exact hall ⟨d, h d hd⟩ hc
  unfold wholeValue
  split
  · exact absurd ‹_› (hmarks 'x' (by decide) _)
  · exact absurd ‹_› (hmarks 'o' (by decide) _)
  · exact absurd ‹_› (hmarks 'b' (by decide) _)
  · rfl

theorem base_of_marked {mark : Char} {base : Nat} (h : markedBase? mark = some base) :
    base ≤ 16 ∧ mark ≠ '_' := by
  unfold markedBase? at h
  split at h <;> cases h <;> decide

theorem integerLiteral_of_wholeValue {text : String} {base : Nat} {ds : List Nat}
    (hbase : base ≤ 16) (hne : ds ≠ []) (hds : ∀ d ∈ ds, d < base)
    (h : wholeValue ((withoutLongMark (ungrouped text)).map Char.toLower) =
      signed base (ds.map Nat.digitChar)) :
    integerLiteral text =
      if value base ds < 2 ^ 63 then .int (value base ds) else .str text := by
  rw [integerLiteral, h, signed_map_digitChar hbase hne hds]
  have hbound : signedBound = 2 ^ 63 := rfl
  rw [hbound]
  by_cases hvalue : value base ds < 2 ^ 63
  · simp only [if_pos hvalue]
  · simp only [if_neg hvalue]

/-- A whole number literal becomes the number that it stands for, if that is a signed word, and
stays as its text otherwise. -/
theorem whole_numbers_keep_their_values (text : String) (n : Nat) (h : Denotes text.toList n) :
    integerLiteral text = if n < 2 ^ 63 then .int n else .str text := by
  generalize hchars : text.toList = chars at h
  have hungrouped : ungrouped text = chars.filter (· ≠ '_') := by rw [ungrouped, hchars]
  cases h with
  | @marked mark base gap cs long ds hmark hgap hcs hlong =>
    obtain ⟨hbase, hne⟩ := base_of_marked hmark
    have hfront : ('0' :: mark :: gap).filter (· ≠ '_') = ['0', mark] := by
      rcases List.mem_pair.mp hgap with rfl | rfl <;> simp [hne]
    apply integerLiteral_of_wholeValue hbase hcs.ne_nil hcs.lt
    rw [hungrouped, lowered_literal _ hcs hbase hlong, hfront]
    exact wholeValue_of_marked hmark _
  | @decimal cs long ds hcs _ hlong =>
    apply integerLiteral_of_wholeValue (by decide) hcs.ne_nil hcs.lt
    have hlowered := lowered_literal [] hcs (by decide) hlong
    rw [List.nil_append] at hlowered
    rw [hungrouped, hlowered]
    exact wholeValue_map_digitChar hcs.lt

theorem the_largest_word_stays_a_number_and_the_next_does_not :
    Denotes "0X_7fff_FFFF_ffff_FFFFL".toList (2 ^ 63 - 1) ∧
      integerLiteral "0X_7fff_FFFF_ffff_FFFFL" = .int 9223372036854775807 ∧
      Denotes "9_223_372_036_854_775_808".toList (2 ^ 63) ∧
      integerLiteral "9_223_372_036_854_775_808" = .str "9_223_372_036_854_775_808" := by
  have hlargest : Denotes "0X_7fff_FFFF_ffff_FFFFL".toList (2 ^ 63 - 1) := by
    refine @Denotes.marked 'X' 16 ['_'] "7fff_FFFF_ffff_FFFF".toList ['L']
      (7 :: List.replicate 15 15) rfl (by decide) ?_ (by decide)
    repeat first
      | exact .last ⟨by decide, by decide⟩
      | refine .apart ⟨by decide, by decide⟩ ?_
      | refine .next ⟨by decide, by decide⟩ ?_
  have hnext : Denotes "9_223_372_036_854_775_808".toList (2 ^ 63) := by
    refine @Denotes.decimal "9_223_372_036_854_775_808".toList []
      [9, 2, 2, 3, 3, 7, 2, 0, 3, 6, 8, 5, 4, 7, 7, 5, 8, 0, 8] ?_ (Or.inl (by decide)) (by decide)
    repeat first
      | exact .last ⟨by decide, by decide⟩
      | refine .apart ⟨by decide, by decide⟩ ?_
      | refine .next ⟨by decide, by decide⟩ ?_
  exact ⟨hlargest, whole_numbers_keep_their_values _ _ hlargest, hnext,
    whole_numbers_keep_their_values _ _ hnext⟩

end Reading

end UnitAtlas
