-- Which encoding a source names. A comment on one of the first two lines names one behind the word
-- `coding`, but only the first `coding` of the comment is looked at: where nothing is named behind
-- it, what a later one names is passed over.
import Mathlib.Data.List.TakeWhile
import UnitAtlas.Source.Decoding

namespace UnitAtlas.Source

/-! ## Names behind a sign -/

/-- The whole of a name: characters of names, and none behind them. -/
structure WholeName (name tail : List Char) : Prop where
  ne_nil : name ≠ []
  chars : ∀ c ∈ name, isNameChar c = true
  stop : ∀ c, tail.head? = some c → isNameChar c = false

/-- A colon or an equals sign, blanks, and then the whole of a name. -/
def Signed (name rest : List Char) : Prop :=
  ∃ sign blanks tail, rest = sign :: (blanks ++ (name ++ tail)) ∧ (sign = ':' ∨ sign = '=') ∧
    (∀ c ∈ blanks, Blank.isBlank c = true) ∧ WholeName name tail

/-- The characters of names are no blanks. -/
theorem isBlank_of_isNameChar {c : Char} (h : isNameChar c = true) : Blank.isBlank c = false := by
  have hnumber : c.val.toNat = c.toNat := rfl
  delta isNameChar isAsciiLetterOrDigit Char.isAlphanum Char.isAlpha Char.isUpper Char.isLower
    Char.isDigit at h
  simp only [Bool.or_eq_true, Bool.and_eq_true, decide_eq_true_eq, beq_iff_eq,
    ← Char.toNat_inj, UInt32.le_iff_toNat_le, hnumber, Char.reduceVal, UInt32.reduceToNat,
    Char.reduceToNat] at h
  unfold Blank.isBlank
  simp only [Bool.or_eq_false_iff, Bool.and_eq_false_iff, decide_eq_false_iff_not,
    beq_eq_false_iff_ne]
  omega

/-- Blanks are passed over up to the first other character. -/
theorem trimStart_append {blanks : List Char} (h : ∀ c ∈ blanks, Blank.isBlank c = true) {c : Char}
    (hc : Blank.isBlank c = false) (rest : List Char) :
    Blank.trimStart (blanks ++ c :: rest) = c :: rest := by
  unfold Blank.trimStart
  rw [List.dropWhile_append_of_pos h, List.dropWhile_cons_of_neg (Bool.eq_false_iff.mp hc)]

theorem WholeName.takeWhile_eq {name tail : List Char} (h : WholeName name tail) :
    (name ++ tail).takeWhile isNameChar = name := by
  rw [List.takeWhile_append_of_pos h.chars]
  cases tail with
  | nil => rw [List.takeWhile_nil, List.append_nil]
  | cons c tail =>
    rw [List.takeWhile_cons_of_neg (Bool.eq_false_iff.mp (h.stop c rfl)), List.append_nil]

theorem wholeName_takeWhile {cs : List Char} (h : cs.takeWhile isNameChar ≠ []) :
    WholeName (cs.takeWhile isNameChar) (cs.dropWhile isNameChar) where
  ne_nil := h
  chars c hc := List.mem_takeWhile_imp hc
  stop c hc := by
    have hstop := List.head?_dropWhile_not isNameChar cs
    rw [hc] at hstop
    exact hstop

theorem namedAfterSign_eq_some_iff {name rest : List Char} :
    namedAfterSign rest = some name ↔ Signed name rest := by
  constructor
  · intro h
    cases rest with
    | nil => cases h
    | cons sign cs =>
      unfold namedAfterSign at h
      dsimp only at h
      split at h
      · rename_i hsign
        split at h
        · cases h
        · rename_i hname
          obtain rfl := Option.some.inj h
          have hname := wholeName_takeWhile fun hnil => hname (List.isEmpty_iff.mpr hnil)
          refine ⟨sign, cs.takeWhile Blank.isBlank, _, ?_, hsign,
            fun c hc => List.mem_takeWhile_imp hc, hname⟩
          unfold Blank.trimStart
          rw [List.takeWhile_append_dropWhile, List.takeWhile_append_dropWhile]
      · cases h
  · rintro ⟨sign, blanks, tail, rfl, hsign, hblanks, hname⟩
    obtain ⟨c, chars, rfl⟩ := List.exists_cons_of_ne_nil hname.ne_nil
    have hc := isBlank_of_isNameChar (hname.chars c List.mem_cons_self)
    have hrun := hname.takeWhile_eq
    rw [List.cons_append] at hrun ⊢
    unfold namedAfterSign
    dsimp only
    rw [if_pos hsign, trimStart_append hblanks hc, hrun]
    rfl

theorem Signed.unique {name name' rest : List Char} (h : Signed name rest)
    (h' : Signed name' rest) : name = name' :=
  Option.some.inj ((namedAfterSign_eq_some_iff.mpr h).symm.trans
    (namedAfterSign_eq_some_iff.mpr h'))

/-! ## Places of a word -/

/-- The word stands behind `before`, and nowhere earlier. -/
structure FirstAt (word text before rest : List Char) : Prop where
  here : text = before ++ (word ++ rest)
  first : ∀ before' rest', text = before' ++ (word ++ rest') → before.length ≤ before'.length

theorem firstAt_nil (word rest : List Char) : FirstAt word (word ++ rest) [] rest :=
  ⟨rfl, fun _ _ _ => Nat.zero_le _⟩

/-- A word that does not open the text comes first where it comes first behind a character. -/
theorem firstAt_cons {word text before rest : List Char} {c : Char} (h : ¬ word <+: c :: text) :
    FirstAt word (c :: text) (c :: before) rest ↔ FirstAt word text before rest := by
  constructor
  · rintro ⟨hhere, hfirst⟩
    rw [List.cons_append, List.cons.injEq] at hhere
    refine ⟨hhere.2, fun before' rest' heq => ?_⟩
    have hle := hfirst (c :: before') rest' (by rw [heq, List.cons_append])
    simpa using hle
  · rintro ⟨rfl, hfirst⟩
    refine ⟨rfl, fun before' rest' heq => ?_⟩
    cases before' with
    | nil => exact absurd ⟨rest', heq.symm⟩ h
    | cons d before' =>
      rw [List.cons_append, List.cons.injEq] at heq
      exact Nat.succ_le_succ (hfirst before' rest' heq.2)

theorem after?_append (word rest : List Char) : after? word (word ++ rest) = some rest := by
  have hopens : word.isPrefixOf (word ++ rest) = true :=
    List.isPrefixOf_iff_prefix.mpr (List.prefix_append word rest)
  have hdrop : (word ++ rest).drop word.length = rest := List.drop_left
  cases htext : word ++ rest with
  | nil =>
    rw [htext] at hopens hdrop
    rw [after?, if_pos hopens, ← hdrop, List.drop_nil]
  | cons c text =>
    rw [htext] at hopens hdrop
    rw [after?, if_pos hopens, hdrop]

theorem after?_cons_of_not {word text : List Char} {c : Char} (h : ¬ word <+: c :: text) :
    after? word (c :: text) = after? word text := by
  rw [after?, if_neg (mt List.isPrefixOf_iff_prefix.mp h)]

theorem after?_eq_some_iff_of_prefix {word text rest : List Char} (h : word <+: text) :
    after? word text = some rest ↔ ∃ before, FirstAt word text before rest := by
  obtain ⟨tail, rfl⟩ := h
  rw [after?_append, Option.some.injEq]
  constructor
  · rintro rfl
    exact ⟨[], firstAt_nil word tail⟩
  · rintro ⟨before, hhere, hfirst⟩
    have hnil := List.eq_nil_of_length_eq_zero (Nat.le_zero.mp (hfirst [] tail rfl))
    subst hnil
    exact List.append_cancel_left hhere

/-- What is found stands behind the first place of the word. -/
theorem after?_eq_some_iff {word text rest : List Char} :
    after? word text = some rest ↔ ∃ before, FirstAt word text before rest := by
  by_cases hword : word <+: text
  · exact after?_eq_some_iff_of_prefix hword
  induction text with
  | nil =>
    rw [after?, if_neg (mt List.isPrefixOf_iff_prefix.mp hword)]
    constructor
    · exact nofun
    · rintro ⟨before, hhere, -⟩
      obtain ⟨-, hnil⟩ := List.append_eq_nil_iff.mp hhere.symm
      exact absurd ⟨rest, hnil⟩ hword
  | cons c text ih =>
    have hrest : after? word text = some rest ↔ ∃ before, FirstAt word text before rest := by
      by_cases hlater : word <+: text
      · exact after?_eq_some_iff_of_prefix hlater
      · exact ih hlater
    rw [after?_cons_of_not hword, hrest]
    constructor
    · rintro ⟨before, h⟩
      exact ⟨c :: before, (firstAt_cons hword).mpr h⟩
    · rintro ⟨_ | ⟨d, before⟩, h⟩
      · exact absurd ⟨rest, h.here.symm⟩ hword
      · obtain ⟨rfl, -⟩ := List.cons.inj h.here
        exact ⟨before, (firstAt_cons hword).mp h⟩

/-! ## Comments -/

/-- Behind blanks, the line is a comment. -/
def IsComment (line comment : List Char) : Prop :=
  ∃ blanks, line = blanks ++ '#' :: comment ∧ ∀ c ∈ blanks, Blank.isBlank c = true

theorem trimStart_eq_cons_iff {line comment : List Char} :
    Blank.trimStart line = '#' :: comment ↔ IsComment line comment := by
  constructor
  · intro h
    refine ⟨line.takeWhile Blank.isBlank, ?_, fun c hc => List.mem_takeWhile_imp hc⟩
    rw [← h]
    exact List.takeWhile_append_dropWhile.symm
  · rintro ⟨blanks, rfl, hblanks⟩
    exact trimStart_append hblanks rfl comment

/-- The word that a name follows. -/
def codingWord : List Char := "coding".toList

/-- Behind `before`, the comment names `name`. -/
def NamesAt (comment before name : List Char) : Prop :=
  ∃ rest, comment = before ++ (codingWord ++ rest) ∧ Signed name rest

/-- The word opens the text and is followed by a name. -/
def Opens (text : List Char) : Prop :=
  codingWord <+: text ∧ (namedAfterSign (text.drop codingWord.length)).isSome

instance (text : List Char) : Decidable (Opens text) := inferInstanceAs (Decidable (_ ∧ _))

theorem NamesAt.opens {comment before name : List Char} (h : NamesAt comment before name) :
    Opens (comment.drop before.length) := by
  obtain ⟨rest, rfl, hsigned⟩ := h
  rw [List.drop_left]
  refine ⟨List.prefix_append codingWord rest, ?_⟩
  rw [List.drop_left, namedAfterSign_eq_some_iff.mpr hsigned]
  rfl

/-- The comment names `name`, and nothing before that. -/
def NamesFirst (comment name : List Char) : Prop :=
  ∃ before, NamesAt comment before name ∧
    ∀ before' name', NamesAt comment before' name' → before.length ≤ before'.length

/-- The comment names `name` behind the first `coding` in it. -/
def NamesByFirst (comment name : List Char) : Prop :=
  ∃ before rest, FirstAt codingWord comment before rest ∧ Signed name rest

theorem namesByFirst_iff {comment name : List Char} :
    NamesByFirst comment name ↔
      (after? codingWord comment).bind namedAfterSign = some name := by
  simp only [Option.bind_eq_some_iff, after?_eq_some_iff, namedAfterSign_eq_some_iff]
  constructor
  · rintro ⟨before, rest, hfirst, hsigned⟩
    exact ⟨rest, ⟨before, hfirst⟩, hsigned⟩
  · rintro ⟨rest, ⟨before, hfirst⟩, hsigned⟩
    exact ⟨before, rest, hfirst, hsigned⟩

theorem cookieOfLine_eq_some_iff {line name : List Char} :
    cookieOfLine line = some name ↔
      ∃ comment, IsComment line comment ∧ NamesByFirst comment name := by
  simp only [← trimStart_eq_cons_iff, namesByFirst_iff]
  unfold cookieOfLine
  split
  · rename_i comment htrim
    constructor
    · exact fun h => ⟨comment, htrim, h⟩
    · rintro ⟨comment', htrim', h⟩
      rw [htrim, List.cons.injEq] at htrim'
      exact htrim'.2 ▸ h
  · rename_i hnot
    exact ⟨nofun, fun ⟨comment, htrim, _⟩ => absurd htrim (hnot comment)⟩

/-- What the first `coding` names is what the comment names first. -/
theorem NamesByFirst.namesFirst {comment name : List Char} (h : NamesByFirst comment name) :
    NamesFirst comment name := by
  obtain ⟨before, rest, hfirst, hsigned⟩ := h
  refine ⟨before, ⟨rest, hfirst.here, hsigned⟩, ?_⟩
  rintro before' name' ⟨rest', hplace, -⟩
  exact hfirst.first before' rest' hplace

theorem NamesFirst.unique {comment name name' : List Char} (h : NamesFirst comment name)
    (h' : NamesFirst comment name') : name = name' := by
  obtain ⟨before, ⟨rest, hplace, hsigned⟩, hfirst⟩ := h
  obtain ⟨before', ⟨rest', hplace', hsigned'⟩, hfirst'⟩ := h'
  have hle := hfirst before' name' ⟨rest', hplace', hsigned'⟩
  have hge := hfirst' before name ⟨rest, hplace, hsigned⟩
  obtain ⟨-, hword⟩ := List.append_inj (hplace.symm.trans hplace') (Nat.le_antisymm hle hge)
  exact hsigned.unique (List.append_cancel_left hword ▸ hsigned')

/-! ## The first two lines -/

theorem lines_eq (raw : Bytes) : lines raw = raw.splitOn 10 := by
  induction raw with
  | nil => rfl
  | cons b rest ih =>
    rw [lines, ih, List.splitOn_cons_eq_if_modifyHead]
    by_cases hb : b = 10
    · rw [if_pos hb, if_pos (beq_iff_eq.mpr hb)]
    · rw [if_neg hb, if_neg (mt beq_iff_eq.mp hb)]
      cases hlines : rest.splitOn 10 with
      | nil => exact absurd hlines (List.splitOn_ne_nil 10 rest)
      | cons line later => rfl

/-- The first hit in a list, by its place. -/
theorem findSome?_take_eq_some_iff {α β : Type} {f : α → Option β} {xs : List α} {n : Nat}
    {y : β} :
    (xs.take n).findSome? f = some y ↔
      ∃ i x, i < n ∧ xs[i]? = some x ∧ f x = some y ∧
        ∀ j < i, ∀ x', xs[j]? = some x' → f x' = none := by
  induction xs generalizing n with
  | nil => simp
  | cons x xs ih =>
    cases n with
    | zero => simp
    | succ n =>
      rw [List.take_succ_cons, List.findSome?_cons]
      rcases hx : f x with _ | z
      · dsimp only
        rw [ih]
        constructor
        · rintro ⟨i, x', hi, hat, hx', hbefore⟩
          refine ⟨i + 1, x', Nat.succ_lt_succ hi, hat, hx', fun j hj x'' hat' => ?_⟩
          cases j with
          | zero => cases hat'; exact hx
          | succ j => exact hbefore j (Nat.lt_of_succ_lt_succ hj) x'' hat'
        · rintro ⟨_ | i, x', hi, hat, hx', hbefore⟩
          · cases hat
            rw [hx] at hx'
            cases hx'
          · exact ⟨i, x', Nat.lt_of_succ_lt_succ hi, hat, hx',
              fun j hj => hbefore (j + 1) (Nat.succ_lt_succ hj)⟩
      · dsimp only
        constructor
        · intro hz
          exact ⟨0, x, Nat.succ_pos n, rfl, hx.trans hz, fun j hj => absurd hj (Nat.not_lt_zero j)⟩
        · rintro ⟨_ | i, x', hi, hat, hx', hbefore⟩
          · cases hat
            exact hx.symm.trans hx'
          · have hfirst := hbefore 0 (Nat.succ_pos i) x rfl
            rw [hx] at hfirst
            cases hfirst

/-- The line is a comment that names something by the rule. -/
def LineNames (rule : List Char → List Char → Prop) (line : Bytes) (name : List Char) : Prop :=
  ∃ comment, IsComment (Utf8.lossy line) comment ∧ rule comment name

/-- The first of the first two lines that names something by the rule names what is, in its common
spelling, the encoding `e`. -/
def CookieBy (rule : List Char → List Char → Prop) (raw : Bytes) (e : String) : Prop :=
  ∃ i line name, i < 2 ∧ (raw.splitOn 10)[i]? = some line ∧ LineNames rule line name ∧
    e = normalName name ∧
    ∀ j < i, ∀ line', (raw.splitOn 10)[j]? = some line' → ∀ name', ¬ LineNames rule line' name'

/-- Rules that agree on the first two lines find the same. -/
theorem CookieBy.imp {rule rule' : List Char → List Char → Prop} {raw : Bytes} {e : String}
    (h : ∀ i < 2, ∀ line, (raw.splitOn 10)[i]? = some line → ∀ name,
      (LineNames rule line name ↔ LineNames rule' line name)) (hcookie : CookieBy rule raw e) :
    CookieBy rule' raw e := by
  obtain ⟨i, line, name, hi, hat, hnames, he, hbefore⟩ := hcookie
  refine ⟨i, line, name, hi, hat, (h i hi line hat name).mp hnames, he, ?_⟩
  intro j hj line' hat' name' hname'
  exact hbefore j hj line' hat' name' ((h j (Nat.lt_trans hj hi) line' hat' name').mpr hname')

/-- The rule that is kept: the first `coding` of a comment names, or nothing does. -/
theorem codingCookie_eq_some_iff {raw : Bytes} {e : String} :
    codingCookie raw = some e ↔ CookieBy NamesByFirst raw e := by
  have hline : ∀ line name, cookieOfLine (Utf8.lossy line) = some name ↔
      LineNames NamesByFirst line name := fun line name => cookieOfLine_eq_some_iff
  have hnone : ∀ line, cookieOfLine (Utf8.lossy line) = none ↔
      ∀ name, ¬ LineNames NamesByFirst line name := by
    intro line
    simp only [← hline, Option.eq_none_iff_forall_ne_some, ne_eq]
  unfold codingCookie
  rw [lines_eq, Option.map_eq_some_iff]
  simp only [findSome?_take_eq_some_iff, hline, hnone]
  constructor
  · rintro ⟨name, ⟨i, line, hi, hat, hnames, hbefore⟩, rfl⟩
    exact ⟨i, line, name, hi, hat, hnames, rfl, hbefore⟩
  · rintro ⟨i, line, name, hi, hat, hnames, rfl, hbefore⟩
    exact ⟨name, ⟨i, line, hi, hat, hnames, hbefore⟩, rfl⟩

/-! ## The law -/

/-- The comment names something, but its first `coding` does not. -/
def PassesOver (comment : List Char) : Prop :=
  (∃ name, NamesFirst comment name) ∧ ∀ name, ¬ NamesByFirst comment name

theorem namesFirst_iff {comment name : List Char} (h : ¬ PassesOver comment) :
    NamesFirst comment name ↔ NamesByFirst comment name := by
  refine ⟨fun hname => ?_, NamesByFirst.namesFirst⟩
  have hsome : ∃ name', NamesByFirst comment name' := by
    by_contra hnone
    exact h ⟨⟨name, hname⟩, not_exists.mp hnone⟩
  obtain ⟨name', hname'⟩ := hsome
  exact hname.unique hname'.namesFirst ▸ hname'

/-- A cookie is what the first `coding` of a comment on the first two lines names, the first such
comment winning. That is what such a comment names first, unless it names something only behind
a `coding` that names nothing. -/
theorem a_cookie_is_named_by_the_first_coding (raw : Bytes) (e : String) :
    (codingCookie raw = some e ↔ CookieBy NamesByFirst raw e) ∧
      ((∀ line ∈ (raw.splitOn 10).take 2, ∀ comment, IsComment (Utf8.lossy line) comment →
          ¬ PassesOver comment) →
        (codingCookie raw = some e ↔ CookieBy NamesFirst raw e)) := by
  refine ⟨codingCookie_eq_some_iff, fun h => ?_⟩
  have hline : ∀ i < 2, ∀ line, (raw.splitOn 10)[i]? = some line → ∀ name,
      (LineNames NamesByFirst line name ↔ LineNames NamesFirst line name) := by
    intro i hi line hat name
    have hmem : line ∈ (raw.splitOn 10).take 2 :=
      List.mem_of_getElem? ((List.getElem?_take_of_lt hi).trans hat)
    refine exists_congr fun comment => and_congr_right fun hcomment => ?_
    exact (namesFirst_iff (h line hmem comment hcomment)).symm
  rw [codingCookie_eq_some_iff]
  exact ⟨CookieBy.imp hline,
    CookieBy.imp fun i hi line hat name => (hline i hi line hat name).symm⟩

/-- A comment that names an encoding on the second line. -/
def secondLine : Bytes := Utf8.encode "\n # vim: fileencoding=Latin_1 :"

theorem a_cookie_on_the_second_line_is_found :
    (∀ line ∈ (secondLine.splitOn 10).take 2, ∀ comment, IsComment (Utf8.lossy line) comment →
        ¬ PassesOver comment) ∧
      CookieBy NamesFirst secondLine "latin-1" := by
  have hlines : ((secondLine.splitOn 10).take 2).map (Blank.trimStart ∘ Utf8.lossy) =
      [[], '#' :: " vim: fileencoding=Latin_1 :".toList] := by decide +kernel
  have hcookie : codingCookie secondLine = some "latin-1" := by decide +kernel
  have hpasses : ∀ line ∈ (secondLine.splitOn 10).take 2, ∀ comment,
      IsComment (Utf8.lossy line) comment → ¬ PassesOver comment := by
    intro line hline comment hcomment
    have hmem := List.mem_map_of_mem (f := Blank.trimStart ∘ Utf8.lossy) hline
    rw [hlines, Function.comp_apply, trimStart_eq_cons_iff.mpr hcomment] at hmem
    have hnamed : NamesByFirst " vim: fileencoding=Latin_1 :".toList "Latin_1".toList :=
      namesByFirst_iff.mpr (by decide)
    rcases List.mem_cons.mp hmem with h | h
    · cases h
    · have heq := (List.cons.inj (List.mem_singleton.mp h)).2
      exact fun hover => hover.2 _ (heq ▸ hnamed)
  exact ⟨hpasses, ((a_cookie_is_named_by_the_first_coding secondLine "latin-1").2 hpasses).mp
    hcookie⟩

/-- A comment in which the word occurs twice. -/
def secondCoding : Bytes := Utf8.encode "# coding of this file is coding: latin-1"

/-- What the second `coding` of a comment names is not found. -/
theorem a_second_coding_is_passed_over :
    codingCookie secondCoding = none ∧ CookieBy NamesFirst secondCoding "latin-1" := by
  have hnone : codingCookie secondCoding = none := by decide +kernel
  have hcomment : Blank.trimStart (Utf8.lossy secondCoding) =
      '#' :: " coding of this file is coding: latin-1".toList := by decide +kernel
  have hnames : NamesAt " coding of this file is coding: latin-1".toList
      " coding of this file is ".toList "latin-1".toList :=
    ⟨": latin-1".toList, by decide, namedAfterSign_eq_some_iff.mp (by decide)⟩
  have hbefore : ∀ n < 24, ¬ Opens (" coding of this file is coding: latin-1".toList.drop n) := by
    decide
  have hfirst : NamesFirst " coding of this file is coding: latin-1".toList "latin-1".toList := by
    refine ⟨_, hnames, fun before' name' hnames' => Nat.le_of_not_lt fun hlt => ?_⟩
    exact hbefore before'.length hlt hnames'.opens
  exact ⟨hnone, 0, secondCoding, "latin-1".toList, by decide, by decide +kernel,
    ⟨_, trimStart_eq_cons_iff.mp hcomment, hfirst⟩, by decide +kernel, nofun⟩

end UnitAtlas.Source
