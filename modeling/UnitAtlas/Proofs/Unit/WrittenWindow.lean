-- The window that is searched for is the one that was written. What the search finds in a line
-- table, filler pairs and all, is what it would find among the instructions of the history: the
-- first of them at a line, and, where none is, the one that reached the last line of all.
import UnitAtlas.Proofs.Unit.Window

namespace UnitAtlas

open LineTable LineDeltas

/-! ## Searching a written table -/

namespace LineDeltas

/-- What the search stops at in the table may stand for a rise: it is at the same offset, and on
no later line. -/
def StandsFor (c r : Breakpoint) : Prop := c.offset = r.offset ∧ c.line ≤ r.line

/-- Places between two rises never stop a search too early: those on the line of the rise before
are passed, like that rise, and all others are at the offset of the next. -/
theorem find?_walk {last : Breakpoint} {bs : List Breakpoint} (h : Rising (last :: bs))
    (line : Nat) :
    Option.Rel StandsFor ((walk last (pairsAlong last bs)).find? (line ≤ ·.line))
      ((last :: bs).find? (line ≤ ·.line)) := by
  induction bs generalizing last with
  | nil =>
    show Option.Rel StandsFor ([last].find? _) ([last].find? _)
    cases [last].find? (line ≤ ·.line) with
    | none => exact .none
    | some c => exact .some ⟨rfl, Nat.le_refl _⟩
  | cons next bs ih =>
    obtain ⟨hlast, hrest⟩ := List.pairwise_cons.mp h
    obtain ⟨hoffset, hline⟩ := hlast next List.mem_cons_self
    obtain ⟨between, hwalk, hbetween⟩ := walk_pairsAlong_cons bs hoffset hline
    rw [hwalk]
    by_cases hreached : line ≤ last.line
    · rw [List.find?_cons_of_pos (by simpa using hreached),
        List.find?_cons_of_pos (by simpa using hreached)]
      exact .some ⟨rfl, Nat.le_refl _⟩
    · rw [List.find?_cons_of_neg (by simpa using hreached),
        List.find?_cons_of_neg (by simpa using hreached), List.find?_append]
      rcases hfind : between.find? (line ≤ ·.line) with _ | c
      · rw [hfind, Option.none_or]
        exact ih hrest
      · have hc := hbetween c (List.mem_of_find?_eq_some hfind)
        have hfound : line ≤ c.line := by simpa using List.find?_some hfind
        have hbelow := hc.line
        -- This place is above the line of the rise before, so it is at the offset of the next.
        have hsame : c.offset = next.offset := hc.either.resolve_left fun he => by omega
        rw [hfind, Option.some_or, List.find?_cons_of_pos (by simp only [decide_eq_true_eq]; omega)]
        exact .some ⟨hsame, Nat.le_of_lt hbelow⟩

/-- The table ends at the last rise. -/
theorem getLast?_walk {last : Breakpoint} {bs : List Breakpoint} (h : Rising (last :: bs)) :
    (walk last (pairsAlong last bs)).getLast? = (last :: bs).getLast? := by
  induction bs generalizing last with
  | nil => rfl
  | cons next bs ih =>
    obtain ⟨hlast, hrest⟩ := List.pairwise_cons.mp h
    obtain ⟨hoffset, hline⟩ := hlast next List.mem_cons_self
    obtain ⟨between, hwalk, -⟩ := walk_pairsAlong_cons bs hoffset hline
    obtain ⟨rest, hcons⟩ := walk_eq_cons next (pairsAlong next bs)
    rw [hwalk, ← List.cons_append, hcons, List.getLast?_append_cons, ← hcons, ih hrest,
      List.getLast?_cons_cons]

/-- Of rising places, the last is the first on its line. -/
theorem find?_of_getLast? {bs : List Breakpoint} {r : Breakpoint} (h : Rising bs)
    (hlast : bs.getLast? = some r) : bs.find? (r.line ≤ ·.line) = some r := by
  obtain ⟨earlier, rfl⟩ := List.getLast?_eq_some_iff.mp hlast
  have hearlier : ∀ b ∈ earlier, ¬ r.line ≤ b.line := fun b hb =>
    Nat.not_le.mpr ((List.pairwise_append.mp h).2.2 b hb r (List.mem_singleton_self r)).2
  rw [List.find?_append, List.find?_eq_none.mpr (by simpa using hearlier), Option.none_or,
    List.find?_cons_of_pos (by simp)]

end LineDeltas

/-! ## Searching a history -/

namespace Assembler

/-- Where code that begins at line `first` is at a line, or behind it, for the first time: at once,
if it begins there, and otherwise at the first of its instructions at such a line. -/
def reached? (first : Nat) (places : List Breakpoint) (line : Nat) : Option Breakpoint :=
  if line ≤ first then some ⟨0, first⟩ else places.find? (line ≤ ·.line)

theorem reached?_eq (first : Nat) (places : List Breakpoint) (line : Nat) :
    reached? first places line = ((⟨0, first⟩ : Breakpoint) :: places).find? (line ≤ ·.line) := by
  rw [reached?, List.find?_cons]
  by_cases h : line ≤ first <;> simp [h]

/-- The first place at a line above all lines passed is a rise. -/
theorem find?_risesAbove {top line : Nat} (h : top < line) (bs : List Breakpoint) :
    (risesAbove top bs).find? (line ≤ ·.line) = bs.find? (line ≤ ·.line) := by
  induction bs generalizing top with
  | nil => rfl
  | cons b bs ih =>
    rw [risesAbove]
    by_cases hreached : line ≤ b.line
    · rw [if_pos (Nat.lt_of_lt_of_le h hreached), List.find?_cons_of_pos (by simpa using hreached),
        List.find?_cons_of_pos (by simpa using hreached)]
    · rw [List.find?_cons_of_neg (l := bs) (by simpa using hreached)]
      split
      · rw [List.find?_cons_of_neg (by simpa using hreached)]
        exact ih (Nat.lt_of_not_le hreached)
      · exact ih h

theorem find?_cons_risesAbove (start : Breakpoint) (bs : List Breakpoint) (line : Nat) :
    (start :: risesAbove start.line bs).find? (line ≤ ·.line) =
      (start :: bs).find? (line ≤ ·.line) := by
  by_cases h : line ≤ start.line
  · rw [List.find?_cons_of_pos (by simpa using h), List.find?_cons_of_pos (by simpa using h)]
  · rw [List.find?_cons_of_neg (by simpa using h), List.find?_cons_of_neg (by simpa using h),
      find?_risesAbove (Nat.lt_of_not_le h)]

theorem first_le_of_reached? {first line : Nat} {places : List Breakpoint} {r : Breakpoint}
    (h : reached? first places line = some r) : first ≤ r.line := by
  rw [reached?] at h
  split at h
  · cases h
    exact Nat.le_refl _
  · have hreached : line ≤ r.line := by simpa using List.find?_some h
    omega

variable (a : Assembler)

/-- The places of an assembler's line table. -/
def tablePlaces : List Breakpoint :=
  walk ⟨0, a.firstLine.toNat⟩ (pairsAlong ⟨0, a.firstLine.toNat⟩ a.rises)

theorem rises_eq : a.rises = risesAbove a.firstLine.toNat a.written := risesFrom_eq _ _ _

theorem rising_rises : Rising (⟨0, a.firstLine.toNat⟩ :: a.rises) := by
  rw [rises_eq]
  exact rising_risesAbove ⟨0, a.firstLine.toNat⟩ _ (Window.ascending_places _ _)

theorem find?_rises (line : Nat) :
    ((⟨0, a.firstLine.toNat⟩ : Breakpoint) :: a.rises).find? (line ≤ ·.line) =
      reached? a.firstLine.toNat a.written line := by
  rw [reached?_eq, rises_eq]
  exact find?_cons_risesAbove ⟨0, a.firstLine.toNat⟩ a.written line

/-- Searching the table is searching what was written. -/
theorem find?_tablePlaces (line : Nat) :
    Option.Rel StandsFor (a.tablePlaces.find? (line ≤ ·.line))
      (reached? a.firstLine.toNat a.written line) := by
  rw [← find?_rises]
  exact find?_walk (rising_rises a) line

/-- The table ends where the highest line of the code was reached first. -/
theorem getLast?_tablePlaces : ∃ top, a.tablePlaces.getLast? = some top ∧
    reached? a.firstLine.toNat a.written (highest a.firstLine.toNat a.written) = some top := by
  obtain ⟨top, hlast, hline⟩ : ∃ top,
      ((⟨0, a.firstLine.toNat⟩ : Breakpoint) :: a.rises).getLast? = some top ∧
        top.line = highest a.firstLine.toNat a.written := by
    rw [rises_eq]
    exact ⟨_, List.getLast?_eq_getLast_of_ne_nil (List.cons_ne_nil _ _),
      getLast_risesAbove ⟨0, a.firstLine.toNat⟩ a.written⟩
  refine ⟨top, (getLast?_walk (rising_rises a)).trans hlast, ?_⟩
  rw [← find?_rises, ← hline]
  exact find?_of_getLast? (rising_rises a) hlast

/-- No place is behind the end of the code. -/
theorem offset_le_of_reached? {line : Nat} {r : Breakpoint}
    (h : reached? a.firstLine.toNat a.written line = some r) : r.offset ≤ a.code.length := by
  rw [reached?_eq] at h
  rcases List.mem_cons.mp (List.mem_of_find?_eq_some h) with rfl | hmem
  · exact Nat.zero_le _
  · obtain ⟨fs, e, gs, hes, rfl⟩ := mem_places hmem
    rw [code, Bytecode.length_flatMap_bytes, hes, List.map_append, List.sum_append]
    simp only
    omega

/-- What a history finishes with is the code and the table of an assembler that wrote at the places
the steps tell. -/
theorem exists_assembler_of_assemble {firstLine : UInt32} {steps : List Step}
    {code table : Bytes} (h : assemble firstLine steps = .ok (code, table)) :
    ∃ a : Assembler, a.firstLine = firstLine ∧
      a.written = Step.placesOf 0 firstLine steps ∧ a.code = code ∧ a.lineTable = table := by
  obtain ⟨d, hrun, hcode, htable⟩ := assemble_eq_ok h
  obtain ⟨hfirst, hwritten⟩ := Desk.written_of_run (Desk.sound_start firstLine) hrun
  exact ⟨d.assembler, hfirst, hwritten, hcode, htable⟩

/-- Where a window up to line `last` is left: at the first instruction that is on this line or
behind it, and, when there is none, where the highest line of the code was reached first. -/
def left? (first : Nat) (places : List Breakpoint) (last : Nat) : Option Breakpoint :=
  (places.find? (last ≤ ·.line)).or (reached? first places (highest first places))

end Assembler

/-! ## The window -/

namespace Window

open Assembler

/-- When the first line is found before the last line, both are found from the start. -/
theorem locate_of_find? (glue len : Nat) {breaks : List Breakpoint} {s : LineSpan}
    {c : Breakpoint} (hc : breaks.find? (s.first ≤ ·.line) = some c) (hlast : c.line < s.last) :
    locate glue len breaks s = ⟨min c.offset len,
      max (min (((breaks.find? (s.last ≤ ·.line)).map (·.offset)).getD
        ((breaks.getLast?.map (·.offset)).getD 0)) len - glue) (min c.offset len)⟩ := by
  obtain ⟨hfound, passed, rest, rfl, hpassed⟩ := List.find?_eq_some_iff_append.mp hc
  simp only [decide_eq_true_eq, Bool.not_eq_true', decide_eq_false_iff_not, Nat.not_le]
    at hfound hpassed
  have hdrop : (passed ++ c :: rest).dropWhile (·.line < s.first) = c :: rest := by
    rw [List.dropWhile_append_of_pos (by simpa using hpassed),
      List.dropWhile_cons_of_neg (by simpa using hfound)]
  have hskip : passed.find? (s.last ≤ ·.line) = none := by
    rw [List.find?_eq_none]
    intro b hb
    have hb := hpassed b hb
    simp only [decide_eq_true_eq]
    omega
  rw [locate_eq glue len hdrop, List.getLast?_append_cons, List.find?_append, hskip,
    Option.none_or, List.find?_cons_of_neg (by simpa using hlast)]

/-- The table of an assembler says where its code leaves the lines up to `last`. -/
theorem exists_left (a : Assembler) {last : Nat} (h : a.firstLine.toNat < last) :
    ∃ b, left? a.firstLine.toNat a.written last = some b ∧ b.offset ≤ a.code.length ∧
      ((a.tablePlaces.find? (last ≤ ·.line)).map (·.offset)).getD
        ((a.tablePlaces.getLast?.map (·.offset)).getD 0) = b.offset := by
  have hreached : reached? a.firstLine.toNat a.written last = a.written.find? (last ≤ ·.line) :=
    if_neg (Nat.not_le.mpr h)
  have hfind := find?_tablePlaces a last
  rw [left?]
  rcases hb : reached? a.firstLine.toNat a.written last with _ | b
  · obtain ⟨top, hlast, htop⟩ := getLast?_tablePlaces a
    refine ⟨top, ?_, offset_le_of_reached? a htop, ?_⟩
    · rw [← hreached, hb, Option.none_or, htop]
    · rcases hd : a.tablePlaces.find? (last ≤ ·.line) with _ | d
      · rw [hd, hlast]
        rfl
      · rw [hb, hd] at hfind
        cases hfind
  · refine ⟨b, by rw [← hreached, hb, Option.some_or], offset_le_of_reached? a hb, ?_⟩
    rcases hd : a.tablePlaces.find? (last ≤ ·.line) with _ | d
    · rw [hb, hd] at hfind
      cases hfind
    · rw [hb, hd] at hfind
      obtain ⟨hoffset, -⟩ : StandsFor d b := by
        cases hfind
        assumption
      rw [hd, Option.map_some, Option.getD_some, hoffset]

/-- What is located in the table of an assembler lies between two instructions of its code. -/
theorem locate_tablePlaces (a : Assembler) (glue : Nat) {s : LineSpan} {r : Breakpoint}
    (hr : reached? a.firstLine.toNat a.written s.first = some r) (hlast : r.line < s.last) :
    ∃ b, left? a.firstLine.toNat a.written s.last = some b ∧
      locate glue a.code.length a.tablePlaces s = ⟨r.offset, max r.offset (b.offset - glue)⟩ := by
  have hfind := find?_tablePlaces a s.first
  rw [hr] at hfind
  rcases hc : a.tablePlaces.find? (s.first ≤ ·.line) with _ | c
  · rw [hc] at hfind
    cases hfind
  rw [hc] at hfind
  obtain ⟨hoffset, hline⟩ : StandsFor c r := by
    cases hfind
    assumption
  obtain ⟨b, hb, hlen, hstop⟩ :=
    exists_left a (Nat.lt_of_le_of_lt (first_le_of_reached? hr) hlast)
  refine ⟨b, hb, ?_⟩
  rw [locate_of_find? glue _ hc (Nat.lt_of_le_of_lt hline hlast), hstop, hoffset,
    Nat.min_eq_left (offset_le_of_reached? a hr), Nat.min_eq_left hlen, Nat.max_comm]

/-- Whatever was written, and however far apart its lines are: the window of lines `s` starts where
the code reached the first of them, when that is before the last of them, and ends where it left
them, less the glue. -/
theorem the_window_found_is_the_one_written (firstLine : UInt32) (steps : List Step)
    (code table : Bytes) (info : UnitInfo) (consts : List (Constant CodeUnit)) (child : CodeUnit)
    (s : LineSpan) (r : Breakpoint) (glue : Nat)
    (h : assemble firstLine steps = .ok (code, table)) (hs : resolveSpan child = .ok s)
    (hr : reached? firstLine.toNat (Step.placesOf 0 firstLine steps) s.first = some r)
    (hlast : r.line < s.last) :
    let parent : CodeUnit :=
      ⟨{ info with firstLine := firstLine, code := code, lineTable := table }, consts⟩
    ∃ b, left? firstLine.toNat (Step.placesOf 0 firstLine steps) s.last = some b ∧
      extract glue parent child = .ok ⟨r.offset, max r.offset (b.offset - glue)⟩ := by
  intro parent
  obtain ⟨a, rfl, hwritten, rfl, rfl⟩ := exists_assembler_of_assemble h
  rw [← hwritten] at hr ⊢
  obtain ⟨b, hb, hlocate⟩ := locate_tablePlaces a glue hr hlast
  have hscan : scan parent = .ok a.tablePlaces := scan_of_tableOf ⟨rfl, rfl⟩
  refine ⟨b, hb, ?_⟩
  rw [extract, hs, hscan, ← hlocate]
  rfl

/-- A window between two gaps that need several pairs each, with a line in it that goes back. -/
def distantHistory : List Step :=
  List.replicate 100 (.arg 100 7) ++ [.line 400, .arg 100 0, .line 2, .emit 83, .line 400,
    .arg 90 0, .line 1000, .emit 83]

set_option maxRecDepth 20000 in
theorem a_window_between_long_gaps :
    let code : Bytes := (List.replicate 100 [100, 7, 0]).flatten ++ [100, 0, 0, 83, 90, 0, 0, 83]
    let table : Bytes := [255, 0, 45, 255, 0, 144, 7, 255, 0, 255, 0, 90]
    let parent : CodeUnit := ⟨⟨"m", "m.py", 1, code, table, [], [], 0, 0, .empty⟩, []⟩
    let child : CodeUnit := ⟨⟨"f", "m.py", 400, [83], [0, 255, 0, 245], [], [], 0, 0, .empty⟩, []⟩
    assemble 1 distantHistory = .ok (code, table) ∧ resolveSpan child = .ok ⟨400, 900⟩ ∧
      extract 3 parent child = .ok ⟨300, 304⟩ := by
  intro code table parent child
  have h : assemble 1 distantHistory = .ok (code, table) := by decide +kernel
  have hs : resolveSpan child = .ok ⟨400, 900⟩ := by decide +kernel
  obtain ⟨b, hb, hextract⟩ := the_window_found_is_the_one_written 1 distantHistory code table
    parent.info [] child ⟨400, 900⟩ ⟨300, 400⟩ 3 h hs (by decide +kernel) (by decide)
  have hleft : left? 1 (Step.placesOf 0 1 distantHistory) 900 = some ⟨307, 1000⟩ := by
    decide +kernel
  obtain rfl : b = ⟨307, 1000⟩ := Option.some.inj (hb.symm.trans hleft)
  exact ⟨h, hs, hextract⟩

end Window

end UnitAtlas
