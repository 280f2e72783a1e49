-- What the lines of an input say: which of them are text, what a handshake reads from the
-- first ones, and what the others ask for up to a line that is blank or is not text.
import Mathlib.Data.List.Basic
import UnitAtlas.Proofs.Text.Lines
import UnitAtlas.Session.Input

namespace UnitAtlas.Input

/-! ## Single lines -/

def isText (raw : Bytes) : Bool := (Utf8.strict? raw).isSome

/-- Whether a line is text of blanks only. -/
def isBlankLine (raw : Bytes) : Bool := (Utf8.strict? raw).any fun s => Blank.trim s == ""

theorem text_of_isText {raw : Bytes} (h : isText raw = true) : ∃ line, text raw = .ok line := by
  unfold isText at h
  rw [Option.isSome_iff_exists] at h
  obtain ⟨s, hs⟩ := h
  exact ⟨Blank.trim s, by rw [text, hs]⟩

theorem strict?_of_not_isText {raw : Bytes} (h : isText raw = false) :
    Utf8.strict? raw = none := by
  unfold isText at h
  rwa [Option.isSome_eq_false_iff, Option.isNone_iff_eq_none] at h

theorem text_of_not_isText {raw : Bytes} (h : isText raw = false) :
    text raw = .error notText := by
  rw [text, strict?_of_not_isText h]

theorem isBlankLine_of_text {raw : Bytes} {line : String} (h : text raw = .ok line) :
    isBlankLine raw = (line == "") := by
  unfold text at h
  unfold isBlankLine
  split at h
  · rename_i s hs
    cases h
    rw [hs, Option.any_some]
  · cases h

/-- A line that is not text is not blank. -/
theorem isBlankLine_of_not_isText {raw : Bytes} (h : isText raw = false) :
    isBlankLine raw = false := by
  rw [isBlankLine, strict?_of_not_isText h, Option.any_none]

/-! ## Lines that are text -/

theorem length_of_texts {lines : List Bytes} {texts : List String}
    (h : lines.map text = texts.map .ok) : texts.length = lines.length := by
  have hlengths := congrArg List.length h
  rw [List.length_map, List.length_map] at hlengths
  exact hlengths.symm

theorem exists_texts {lines : List Bytes} (h : ∀ raw ∈ lines, isText raw = true) :
    ∃ texts : List String, lines.map text = texts.map .ok := by
  induction lines with
  | nil => exact ⟨[], rfl⟩
  | cons raw rest ih =>
    rw [List.forall_mem_cons] at h
    obtain ⟨hraw, hrest⟩ := h
    obtain ⟨line, hline⟩ := text_of_isText hraw
    obtain ⟨texts, htexts⟩ := ih hrest
    exact ⟨line :: texts, by rw [List.map_cons, List.map_cons, hline, htexts]⟩

theorem not_forall_isText_iff (lines : List Bytes) :
    (¬ ∀ raw ∈ lines, isText raw = true) ↔ ∃ raw ∈ lines, isText raw = false := by
  simp only [not_forall, Bool.not_eq_true, exists_prop]

/-- Every line of a text is text. -/
theorem text_raw_encode (t : String) :
    (Lines.raw (Utf8.encode t)).map text = (Lines.trimmed t).map .ok := by
  rw [Lines.raw_encode, Lines.trimmed, List.map_map, List.map_map]
  refine List.map_congr_left fun line _ => ?_
  simp only [Function.comp, text, Utf8.strict?_encode]

/-! ## Lines of a handshake -/

/-- The first lines of an input as a handshake reads them, empty behind its end. -/
def told : Nat → List Bytes → Except ErrorChain (List String)
  | 0, _ => .ok []
  | count + 1, [] => (told count []).map ("" :: ·)
  | count + 1, raw :: rest =>
    match text raw with
    | .error chain => .error chain
    | .ok line => (told count rest).map (line :: ·)

/-- Lines that are text are told as they are, and empty ones in the place of missing lines. -/
theorem told_of_texts (count : Nat) {lines : List Bytes} {texts : List String}
    (h : (lines.take count).map text = texts.map .ok) :
    told count lines = .ok (texts ++ List.replicate (count - texts.length) "") := by
  induction count generalizing lines texts with
  | zero =>
    have htexts : texts = [] := List.map_eq_nil_iff.mp h.symm
    rw [htexts]
    rfl
  | succ count ih =>
    rcases lines with _ | ⟨raw, rest⟩
    · have htexts : texts = [] := List.map_eq_nil_iff.mp h.symm
      have hnil : ((List.take count []).map text) = List.map .ok [] := by
        rw [List.take_nil, List.map_nil, List.map_nil]
      rw [told, ih hnil, htexts]
      rfl
    · rcases texts with _ | ⟨line, later⟩
      · cases h
      · rw [List.take_succ_cons, List.map_cons, List.map_cons, List.cons.injEq] at h
        obtain ⟨hline, hrest⟩ := h
        rw [told, hline]
        dsimp only
        rw [ih hrest, List.length_cons, Nat.add_sub_add_right]
        rfl

theorem told_of_not_isText (count : Nat) {lines : List Bytes}
    (h : ∃ raw ∈ lines.take count, isText raw = false) :
    told count lines = .error notText := by
  induction count generalizing lines with
  | zero =>
    obtain ⟨raw, hraw, _⟩ := h
    cases hraw
  | succ count ih =>
    rcases lines with _ | ⟨first, rest⟩
    · obtain ⟨raw, hraw, _⟩ := h
      cases hraw
    · rw [told]
      rcases hfirst : isText first with _ | _
      · rw [text_of_not_isText hfirst]
      · obtain ⟨line, hline⟩ := text_of_isText hfirst
        rw [List.take_succ_cons, List.exists_mem_cons_iff] at h
        rcases h with hnot | hrest
        · rw [hfirst] at hnot
          cases hnot
        · rw [hline, ih hrest]
          rfl

/-! ## Lines of requests -/

/-- The requests before the first line that is blank or is not text, and whether it is text. -/
def asked : List Bytes → List String × Except ErrorChain Unit
  | [] => ([], .ok ())
  | raw :: rest =>
    match text raw with
    | .error chain => ([], .error chain)
    | .ok request =>
      if request = "" then ([], .ok ()) else (request :: (asked rest).1, (asked rest).2)

/-- The lines before the first blank one. -/
def beforeBlank (lines : List Bytes) : List Bytes := lines.takeWhile fun raw => !isBlankLine raw

theorem beforeBlank_cons_of_blank {raw : Bytes} (rest : List Bytes) (h : isBlankLine raw = true) :
    beforeBlank (raw :: rest) = [] := by
  rw [beforeBlank, List.takeWhile_cons, h, Bool.not_true, if_neg Bool.false_ne_true]

theorem beforeBlank_cons {raw : Bytes} (rest : List Bytes) (h : isBlankLine raw = false) :
    beforeBlank (raw :: rest) = raw :: beforeBlank rest := by
  rw [beforeBlank, List.takeWhile_cons, h, Bool.not_false, if_pos rfl, beforeBlank]

/-- Lines that are text ask for all that stands before the first blank one. -/
theorem asked_of_texts {lines : List Bytes} {texts : List String}
    (h : (beforeBlank lines).map text = texts.map .ok) : asked lines = (texts, .ok ()) := by
  induction lines generalizing texts with
  | nil =>
    have htexts : texts = [] := List.map_eq_nil_iff.mp h.symm
    rw [htexts]
    rfl
  | cons raw rest ih =>
    rw [asked]
    rcases hraw : isText raw with _ | _
    · -- A line that is not text would be among those that are.
      exfalso
      rw [beforeBlank_cons rest (isBlankLine_of_not_isText hraw), List.map_cons,
        text_of_not_isText hraw] at h
      rcases texts with _ | ⟨line, later⟩ <;> cases h
    · obtain ⟨request, hrequest⟩ := text_of_isText hraw
      have hblank := isBlankLine_of_text hrequest
      rw [hrequest]
      dsimp only
      by_cases hempty : request = ""
      · rw [beforeBlank_cons_of_blank rest (by rw [hblank, hempty]; rfl)] at h
        have htexts : texts = [] := List.map_eq_nil_iff.mp h.symm
        rw [if_pos hempty, htexts]
      · rw [beforeBlank_cons rest (by rw [hblank, beq_false_of_ne hempty]), List.map_cons,
          hrequest] at h
        rcases texts with _ | ⟨line, later⟩
        · cases h
        · rw [List.map_cons, List.cons.injEq, Except.ok.injEq] at h
          obtain ⟨rfl, hrest⟩ := h
          rw [if_neg hempty, ih hrest]

theorem asked_of_not_isText {lines : List Bytes}
    (h : ∃ raw ∈ beforeBlank lines, isText raw = false) : (asked lines).2 = .error notText := by
  induction lines with
  | nil =>
    obtain ⟨raw, hraw, _⟩ := h
    cases hraw
  | cons first rest ih =>
    rw [asked]
    rcases hfirst : isText first with _ | _
    · rw [text_of_not_isText hfirst]
    · obtain ⟨request, hrequest⟩ := text_of_isText hfirst
      have hblank := isBlankLine_of_text hrequest
      rw [hrequest]
      dsimp only
      by_cases hempty : request = ""
      · rw [beforeBlank_cons_of_blank rest (by rw [hblank, hempty]; rfl)] at h
        obtain ⟨raw, hraw, _⟩ := h
        cases hraw
      · rw [beforeBlank_cons rest (by rw [hblank, beq_false_of_ne hempty]),
          List.exists_mem_cons_iff] at h
        rw [if_neg hempty]
        rcases h with hnot | hrest
        · rw [hfirst] at hnot
          cases hnot
        · exact ih hrest

theorem beforeBlank_of_texts {lines : List Bytes} {texts : List String}
    (h : lines.map text = texts.map .ok) :
    (beforeBlank lines).map text = (texts.takeWhile (· ≠ "")).map .ok := by
  induction lines generalizing texts with
  | nil =>
    have htexts : texts = [] := List.map_eq_nil_iff.mp h.symm
    rw [htexts]
    rfl
  | cons raw rest ih =>
    rcases texts with _ | ⟨line, later⟩
    · cases h
    · rw [List.map_cons, List.map_cons, List.cons.injEq] at h
      obtain ⟨hline, hrest⟩ := h
      have hblank := isBlankLine_of_text hline
      by_cases hempty : line = ""
      · rw [beforeBlank_cons_of_blank rest (by rw [hblank, hempty]; rfl), hempty]
        rfl
      · rw [beforeBlank_cons rest (by rw [hblank, beq_false_of_ne hempty]), List.map_cons, ih hrest,
          List.takeWhile_cons_of_pos (by simpa using hempty), List.map_cons, hline]

end UnitAtlas.Input
