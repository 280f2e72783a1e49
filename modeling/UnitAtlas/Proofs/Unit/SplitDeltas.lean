-- When the search for a window sees that large deltas are split. It does not as long as the lines of
-- the window are reached one after the other. Where one breakpoint reaches them all at once, a place
-- that was added on the way to it, or right behind it, may be taken for the end.
import UnitAtlas.Proofs.Unit.WrittenWindow

namespace UnitAtlas

open LineTable LineDeltas

namespace LineDeltas

/-- The first pair of a step moves on by all of the bytes that fit. -/
theorem exists_steps_eq_cons (bytes lines : Nat) :
    ∃ n rest, steps bytes lines = (min largest bytes, n) :: rest ∧ n ≤ largest := by
  rw [steps]
  split
  · rename_i hbytes
    exact ⟨0, _, by rw [Nat.min_eq_left (Nat.le_of_lt hbytes)], Nat.zero_le _⟩
  · rename_i hbytes
    rw [lineSteps, Nat.min_eq_right (Nat.le_of_not_lt hbytes)]
    split
    · exact ⟨largest, _, rfl, Nat.le_refl _⟩
    · rename_i hlines
      exact ⟨lines, [], rfl, Nat.le_of_not_lt hlines⟩

/-- The place behind a breakpoint is no further away than one pair leads. -/
theorem walk_pairsAlong_second (r next : Breakpoint) (bs : List Breakpoint) :
    ∃ x rest, walk r (pairsAlong r (next :: bs)) = r :: x :: rest ∧
      x.offset = r.offset + min largest (next.offset - r.offset) ∧ r.line ≤ x.line := by
  obtain ⟨n, pairs, hsteps, hn⟩ :=
    exists_steps_eq_cons (next.offset - r.offset) (next.line - r.line)
  have hmoved := moved_asPair r _ n (Nat.min_le_left largest (next.offset - r.offset)) hn
  obtain ⟨rest, hrest⟩ := walk_eq_cons (moved r (asPair (min largest (next.offset - r.offset), n)))
    (pairs.map asPair ++ pairsAlong next bs)
  refine ⟨moved r (asPair (min largest (next.offset - r.offset), n)), rest, ?_, ?_⟩
  · rw [pairsAlong, hsteps, List.map_cons, List.cons_append, walk_cons, hrest]
  · rw [hmoved]
    exact ⟨rfl, Nat.le_add_right _ _⟩

/-- What is left of the table when the places before a line are passed over: the breakpoint that
reaches it and all behind, and the places on the way there that reach it already. -/
theorem dropWhile_walk_climbing {start r : Breakpoint} {bs earlier later : List Breakpoint}
    {first : Nat} (hsplit : start :: bs = earlier ++ r :: later) (hrising : Rising (start :: bs))
    (hearlier : ∀ b ∈ earlier, b.line < first) (hr : first ≤ r.line) :
    ∃ climbing, (walk start (pairsAlong start bs)).dropWhile (·.line < first) =
        climbing ++ walk r (pairsAlong r later) ∧
      (∀ b ∈ climbing, b.offset = r.offset) ∧
      (climbing ≠ [] ↔ ∃ p ∈ earlier.getLast?, first ≤ topOnTheWay p r) := by
  rcases List.eq_nil_or_concat earlier with rfl | ⟨front, p, rfl⟩
  · obtain ⟨rfl, rfl⟩ := List.cons_eq_cons.mp hsplit
    exact ⟨[], dropWhile_walk_of_le hr _, List.forall_mem_nil _, by simp⟩
  rw [List.concat_eq_append] at hsplit hearlier ⊢
  have hp : p.line < first := hearlier p (by simp)
  have hpr : p.offset ≤ r.offset ∧ p.line < r.line := by
    rw [hsplit] at hrising
    exact (List.pairwise_append.mp hrising).2.2 p (by simp) r List.mem_cons_self
  rw [List.append_assoc, List.singleton_append] at hsplit
  obtain ⟨passed, hpassed, hbelow⟩ := exists_walk_split hsplit hrising
  obtain ⟨flat, climbing, hwalk, hflat, hclimbs⟩ := walk_pairsAlong_climbs later hpr.1 hpr.2
  -- Only the places that climb from `p` to `r` are left to look at.
  have hskip : ∀ b ∈ passed ++ p :: flat, decide (b.line < first) = true := by
    simp only [decide_eq_true_eq, List.forall_mem_append, List.forall_mem_cons]
    exact ⟨fun b hb => Nat.lt_trans (hbelow b hb) hp, hp, fun b hb => (hflat b hb).2.symm ▸ hp⟩
  have hsame : passed ++ walk p (pairsAlong p (r :: later)) =
      (passed ++ p :: flat) ++ (climbing ++ walk r (pairsAlong r later)) := by
    simp [hwalk]
  refine ⟨climbing.dropWhile (·.line < first), ?_, ?_, ?_⟩
  · rw [hpassed, hsame, List.dropWhile_append_of_pos hskip, List.dropWhile_append,
      dropWhile_walk_of_le hr]
    split
    · rename_i hnone
      rw [List.isEmpty_iff.mp hnone, List.nil_append]
    · rfl
  · exact fun b hb => hclimbs.offset b ((List.dropWhile_sublist _).subset hb)
  · simp [← hclimbs.top first hp]

end LineDeltas

/-! ## The search in a table and among the breakpoints -/

namespace Window

section Search

variable {glue len : Nat} {start r next : Breakpoint} {bs earlier later : List Breakpoint}
  {s : LineSpan}

/-- The search among breakpoints sees a split in their table: all lines are reached at once, at a
breakpoint `r` with code of more than the store behind it, and between the place where it starts and
the next breakpoint there is another place to end at. -/
def SeesSplit (glue : Nat) (breaks : List Breakpoint) (s : LineSpan) : Prop :=
  ∃ r next later, breaks.dropWhile (·.line < s.first) = r :: next :: later ∧ s.last ≤ r.line ∧
    r.offset + glue < next.offset ∧ (r.offset + largest < next.offset ∨
      ∃ p ∈ (breaks.takeWhile (·.line < s.first)).getLast?, s.first ≤ topOnTheWay p r)

theorem find?_eq_head?_dropWhile (breaks : List Breakpoint) (first : Nat) :
    breaks.find? (first ≤ ·.line) = (breaks.dropWhile (·.line < first)).head? := by
  induction breaks with
  | nil => rfl
  | cons b breaks ih =>
    by_cases hb : first ≤ b.line
    · rw [List.find?_cons_of_pos (by simpa using hb),
        List.dropWhile_cons_of_neg (by simpa using hb)]
      rfl
    · rw [List.find?_cons_of_neg (by simpa using hb), ih,
        List.dropWhile_cons_of_pos (by simpa using hb)]

/-- The table and its breakpoints reach a line at one offset. -/
theorem map_find?_walk (hrising : Rising (start :: bs)) (line : Nat) :
    ((walk start (pairsAlong start bs)).find? (line ≤ ·.line)).map (·.offset) =
      ((start :: bs).find? (line ≤ ·.line)).map (·.offset) := by
  have hfind := find?_walk hrising line
  generalize (walk start (pairsAlong start bs)).find? (line ≤ ·.line) = found at hfind
  generalize (start :: bs).find? (line ≤ ·.line) = reached at hfind
  cases hfind with
  | none => rfl
  | some h => exact congrArg some h.1

/-- Nothing is reached: the table ends where its last breakpoint is. -/
theorem locate_walk_of_none (hrising : Rising (start :: bs))
    (h : (start :: bs).dropWhile (·.line < s.first) = []) :
    locate glue len (walk start (pairsAlong start bs)) s = locate glue len (start :: bs) s := by
  have hwalk : (walk start (pairsAlong start bs)).dropWhile (·.line < s.first) = [] := by
    have hfind := map_find?_walk hrising s.first
    rw [find?_eq_head?_dropWhile, find?_eq_head?_dropWhile, h] at hfind
    simpa using hfind
  simp only [locate, h, hwalk, getLast?_walk hrising]

/-- The lines are reached one after the other: each search finds the same offsets. -/
theorem locate_walk_of_lt (hrising : Rising (start :: bs))
    (h : (start :: bs).dropWhile (·.line < s.first) = r :: later) (hlast : r.line < s.last) :
    locate glue len (walk start (pairsAlong start bs)) s = locate glue len (start :: bs) s := by
  have hr : (start :: bs).find? (s.first ≤ ·.line) = some r := by
    rw [find?_eq_head?_dropWhile, h]
    rfl
  have hfirst := find?_walk hrising s.first
  rw [hr] at hfirst
  rcases hc : (walk start (pairsAlong start bs)).find? (s.first ≤ ·.line) with _ | c
  · rw [hc] at hfirst
    cases hfirst
  rw [hc] at hfirst
  obtain ⟨hoffset, hline⟩ : StandsFor c r := by
    cases hfirst
    assumption
  rw [locate_of_find? glue len hc (Nat.lt_of_le_of_lt hline hlast),
    locate_of_find? glue len hr hlast, map_find?_walk hrising, getLast?_walk hrising, hoffset]

theorem locate_of_find?_tail {breaks rest : List Breakpoint} {c d : Breakpoint}
    (h : breaks.dropWhile (·.line < s.first) = c :: rest)
    (hfind : rest.find? (s.last ≤ ·.line) = some d) :
    locate glue len breaks s =
      ⟨min c.offset len, max (min d.offset len - glue) (min c.offset len)⟩ := by
  rw [locate_eq glue len h, hfind]
  rfl

/-- The lines are all reached at once, on the way to a breakpoint: the window ends there too. -/
theorem locate_of_climbing {breaks climbing rest : List Breakpoint} {c : Breakpoint}
    (h : breaks.dropWhile (·.line < s.first) = c :: climbing ++ r :: rest)
    (hoffset : ∀ b ∈ c :: climbing, b.offset = r.offset) (hlast : s.last ≤ r.line) :
    locate glue len breaks s = ⟨min r.offset len, min r.offset len⟩ := by
  obtain ⟨d, hfind, hd⟩ := exists_find?_append climbing rest hlast
  have hsame : d.offset = r.offset := by
    rcases hd with hd | rfl
    · exact hoffset d (List.mem_cons_of_mem c hd)
    · rfl
  rw [locate_of_find?_tail h hfind, hsame, hoffset c List.mem_cons_self,
    Nat.max_eq_right (Nat.sub_le _ _)]

/-- The last breakpoint reaches all lines: the window is empty. -/
theorem locate_walk_of_last (hrising : Rising (start :: bs))
    (h : (start :: bs).dropWhile (·.line < s.first) = [r]) (hspan : s.first ≤ s.last)
    (hlast : s.last ≤ r.line) :
    locate glue len (walk start (pairsAlong start bs)) s = locate glue len (start :: bs) s := by
  have hsplit : start :: bs = (start :: bs).takeWhile (·.line < s.first) ++ [r] := by
    rw [← h, List.takeWhile_append_dropWhile]
  obtain ⟨climbing, hdrop, hoffset, -⟩ := dropWhile_walk_climbing hsplit hrising
    (fun b hb => by simpa using List.mem_takeWhile_imp hb) (Nat.le_trans hspan hlast)
  have hwalk : walk r (pairsAlong r []) = [r] := rfl
  rw [hwalk] at hdrop
  have hend : locate glue len (start :: bs) s = ⟨min r.offset len, min r.offset len⟩ := by
    rw [locate_eq glue len h]
    simp
  rw [hend]
  rcases climbing with _ | ⟨c, climbing⟩
  · rw [locate_eq glue len hdrop]
    simp
  · exact locate_of_climbing hdrop hoffset hlast

/-- All lines are reached at once by a breakpoint with code behind it: the table may have another
place to end at than the next breakpoint. -/
theorem locate_walk_of_le (hrising : Rising (start :: bs))
    (h : (start :: bs).dropWhile (·.line < s.first) = r :: next :: later)
    (hspan : s.first ≤ s.last) (hlast : s.last ≤ r.line) (hlen : next.offset ≤ len) :
    locate glue len (walk start (pairsAlong start bs)) s = locate glue len (start :: bs) s ↔
      ¬ SeesSplit glue (start :: bs) s := by
  have hsplit : start :: bs = (start :: bs).takeWhile (·.line < s.first) ++ r :: next :: later := by
    rw [← h, List.takeWhile_append_dropWhile]
  have hnext : r.offset ≤ next.offset ∧ r.line < next.line := by
    rw [hsplit] at hrising
    exact (List.pairwise_cons.mp (List.pairwise_append.mp hrising).2.1).1 next List.mem_cons_self
  obtain ⟨climbing, hdrop, hoffset, hclimbing⟩ := dropWhile_walk_climbing hsplit hrising
    (fun b hb => by simpa using List.mem_takeWhile_imp hb) (Nat.le_trans hspan hlast)
  have hsees : SeesSplit glue (start :: bs) s ↔
      r.offset + glue < next.offset ∧ (r.offset + largest < next.offset ∨ climbing ≠ []) := by
    rw [hclimbing, SeesSplit, h]
    constructor
    · rintro ⟨r', next', later', heq, -, hsee⟩
      cases heq
      exact hsee
    · intro hsee
      exact ⟨r, next, later, rfl, hlast, hsee⟩
  rw [hsees, locate_of_find?_tail h (List.find?_cons_of_pos (by simp; omega)),
    Nat.min_eq_left (Nat.le_trans hnext.1 hlen), Nat.min_eq_left hlen]
  rcases climbing with _ | ⟨c, climbing⟩
  · obtain ⟨x, rest, hwalk, hx, hline⟩ := walk_pairsAlong_second r next later
    rw [hwalk] at hdrop
    rw [locate_of_find?_tail hdrop (List.find?_cons_of_pos (by simp; omega)), hx]
    simp only [ByteRange.mk.injEq, ne_eq, not_true_eq_false, or_false, largest]
    omega
  · obtain ⟨rest, hwalk⟩ := walk_eq_cons r (pairsAlong r (next :: later))
    rw [hwalk] at hdrop
    rw [locate_of_climbing hdrop hoffset hlast]
    simp only [ByteRange.mk.injEq, ne_eq, reduceCtorEq, not_false_eq_true, or_true, and_true]
    omega

/-- Searching a table is searching its breakpoints, but for the splits that are seen. -/
theorem locate_walk_eq_iff (hrising : Rising (start :: bs)) (hspan : s.first ≤ s.last)
    (hlen : ∀ b ∈ start :: bs, b.offset ≤ len) :
    locate glue len (walk start (pairsAlong start bs)) s = locate glue len (start :: bs) s ↔
      ¬ SeesSplit glue (start :: bs) s := by
  rcases h : (start :: bs).dropWhile (·.line < s.first) with _ | ⟨r, _ | ⟨next, later⟩⟩
  · refine iff_of_true (locate_walk_of_none hrising h) ?_
    rintro ⟨r, next, later, hdrop, -⟩
    cases h.symm.trans hdrop
  · refine iff_of_true ?_ ?_
    · rcases Nat.lt_or_ge r.line s.last with hlast | hlast
      · exact locate_walk_of_lt hrising h hlast
      · exact locate_walk_of_last hrising h hspan hlast
    · rintro ⟨r, next, later, hdrop, -⟩
      cases h.symm.trans hdrop
  · rcases Nat.lt_or_ge r.line s.last with hlast | hlast
    · refine iff_of_true (locate_walk_of_lt hrising h hlast) ?_
      rintro ⟨r', next', later', hdrop, hline, -⟩
      cases h.symm.trans hdrop
      omega
    · have hmem : next ∈ start :: bs :=
        (List.dropWhile_sublist _).subset (h ▸ List.mem_cons_of_mem r List.mem_cons_self)
      exact locate_walk_of_le hrising h hspan hlast (hlen next hmem)

end Search

open Assembler

/-- The breakpoints of a history, however far apart they are: where its code begins, and each
instruction on a line above all lines before it. -/
def breakpointsOf (firstLine : UInt32) (steps : List Step) : List Breakpoint :=
  ⟨0, firstLine.toNat⟩ :: risesAbove firstLine.toNat (Step.placesOf 0 firstLine steps)

/-- No rise is behind the end of the code. -/
theorem offset_le_of_mem_rises (a : Assembler) :
    ∀ b ∈ (⟨0, a.firstLine.toNat⟩ : Breakpoint) :: a.rises, b.offset ≤ a.code.length := by
  refine List.forall_mem_cons.mpr ⟨Nat.zero_le _, fun b hb => ?_⟩
  rw [rises_eq] at hb
  obtain ⟨fs, e, gs, hes, rfl⟩ := mem_places (mem_of_mem_risesAbove hb)
  rw [code, Bytecode.length_flatMap_bytes, hes, List.map_append, List.sum_append]
  simp only
  omega

/-- A window in the code of an assembler is searched in the assembler's table. -/
theorem extract_of_tableOf {a : Assembler} {u v : CodeUnit} {s : LineSpan} (h : TableOf a u)
    (hcode : u.info.code = a.code) (hs : resolveSpan v = .ok s) (glue : Nat) :
    extract glue u v = .ok (locate glue a.code.length a.tablePlaces s) := by
  have hscan : scan u = .ok a.tablePlaces := scan_of_tableOf h
  rw [extract, hs, hscan, ← hcode]
  rfl

/-- The window found in the table that a history finishes with is the one that its breakpoints give,
unless the search sees that a delta was split. -/
theorem a_window_is_found_as_unsplit_unless_a_split_is_seen (firstLine : UInt32)
    (steps : List Step) (code table : Bytes) (info : UnitInfo) (consts : List (Constant CodeUnit))
    (child : CodeUnit) (s : LineSpan) (glue : Nat)
    (h : assemble firstLine steps = .ok (code, table)) (hs : resolveSpan child = .ok s) :
    let parent : CodeUnit :=
      ⟨{ info with firstLine := firstLine, code := code, lineTable := table }, consts⟩
    extract glue parent child =
        .ok (locate glue code.length (breakpointsOf firstLine steps) s) ↔
      ¬ SeesSplit glue (breakpointsOf firstLine steps) s := by
  intro parent
  obtain ⟨a, rfl, hwritten, rfl, rfl⟩ := exists_assembler_of_assemble h
  have hbreaks : breakpointsOf a.firstLine steps = ⟨0, a.firstLine.toNat⟩ :: a.rises := by
    rw [breakpointsOf, ← hwritten, rises_eq]
  have hextract : extract glue parent child = .ok (locate glue a.code.length a.tablePlaces s) :=
    extract_of_tableOf ⟨rfl, rfl⟩ rfl hs glue
  rw [hextract, hbreaks, Except.ok.injEq]
  exact locate_walk_eq_iff (rising_rises a) (first_le_last_of_resolveSpan hs)
    (offset_le_of_mem_rises a)

/-- A line delta of two pairs, behind code that one pair passes. -/
def nearHistory : List Step := List.replicate 85 (.arg 100 0) ++ [.line 400, .emit 83]

set_option maxRecDepth 20000 in
theorem no_split_is_seen_behind_near_code :
    let child : CodeUnit := ⟨⟨"f", "m.py", 1, [83], [], [], [], 0, 0, .empty⟩, []⟩
    (∃ code table, assemble 1 nearHistory = .ok (code, table)) ∧
      resolveSpan child = .ok ⟨1, 1⟩ ∧ ¬ SeesSplit 3 (breakpointsOf 1 nearHistory) ⟨1, 1⟩ := by
  intro child
  have h : assemble 1 nearHistory =
      .ok ((List.replicate 85 [100, 0, 0]).flatten ++ [83], [255, 255, 0, 144]) := by decide +kernel
  have hs : resolveSpan child = .ok ⟨1, 1⟩ := by decide +kernel
  refine ⟨⟨_, _, h⟩, hs, ?_⟩
  exact (a_window_is_found_as_unsplit_unless_a_split_is_seen 1 nearHistory _ _ child.info []
    child ⟨1, 1⟩ 3 h hs).mp (by decide +kernel)

/-- A byte delta of two pairs, on the line that is the first of the window and the last. -/
def farHistory : List Step := List.replicate 86 (.arg 100 0) ++ [.line 2, .emit 83]

set_option maxRecDepth 20000 in
/-- The window of one line with 258 bytes of code behind its start ends within the first pair. -/
theorem a_split_can_be_seen :
    ¬ ∀ (firstLine : UInt32) (steps : List Step) (code table : Bytes) (info : UnitInfo)
        (consts : List (Constant CodeUnit)) (child : CodeUnit) (s : LineSpan) (glue : Nat),
        assemble firstLine steps = .ok (code, table) → resolveSpan child = .ok s →
          extract glue ⟨{ info with firstLine := firstLine, code := code, lineTable := table },
              consts⟩ child =
            .ok (locate glue code.length (breakpointsOf firstLine steps) s) := by
  intro hsame
  let code : Bytes := (List.replicate 86 [100, 0, 0]).flatten ++ [83]
  let parent : CodeUnit := ⟨⟨"m", "m.py", 1, code, [255, 0, 3, 1], [], [], 0, 0, .empty⟩, []⟩
  let child : CodeUnit := ⟨⟨"f", "m.py", 1, [83], [], [], [], 0, 0, .empty⟩, []⟩
  have h : assemble 1 farHistory = .ok (code, [255, 0, 3, 1]) := by decide +kernel
  have hs : resolveSpan child = .ok ⟨1, 1⟩ := by decide +kernel
  have hwindow : extract 3 parent child =
      .ok (locate 3 code.length (breakpointsOf 1 farHistory) ⟨1, 1⟩) :=
    hsame 1 farHistory code [255, 0, 3, 1] parent.info [] child ⟨1, 1⟩ 3 h hs
  have hfound : extract 3 parent child = .ok ⟨0, 252⟩ := by decide +kernel
  have hwritten : locate 3 code.length (breakpointsOf 1 farHistory) ⟨1, 1⟩ = ⟨0, 255⟩ := by
    decide +kernel
  rw [hfound, hwritten] at hwindow
  cases hwindow

end Window

end UnitAtlas
