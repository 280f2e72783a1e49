-- Where the window of a nested unit lies in code whose lines never go back. It starts at the first
-- instruction on the unit's first line; no instruction on a later line is in it, and when there is
-- a later line it ends where that begins, less the store.
import Mathlib.Data.List.TakeWhile
import UnitAtlas.Classifier
import UnitAtlas.Proofs.Bytecode.Breakpoints
import UnitAtlas.Proofs.Bytecode.Sweep

namespace UnitAtlas

open LineTable LineDeltas

namespace Window

/-! ## What the search finds among rises -/

section Search

variable (glue len : Nat) {last : Nat} {start r : Breakpoint} {bs earlier later : List Breakpoint}

theorem locate_eq {breaks rest : List Breakpoint} {first : Nat} {r : Breakpoint}
    (h : breaks.dropWhile (·.line < first) = r :: rest) :
    locate glue len breaks ⟨first, last⟩ = ⟨min r.offset len,
      max (min (((rest.find? (last ≤ ·.line)).map (·.offset)).getD
        (((r :: rest).getLast?.map (·.offset)).getD 0)) len - glue) (min r.offset len)⟩ := by
  have hlast : breaks.getLast? = (r :: rest).getLast? := by
    rw [← List.takeWhile_append_dropWhile (p := (·.line < first)) (l := breaks), h,
      List.getLast?_append_cons]
  simp only [locate, h, hlast]
  rfl

/-- Nothing rises above the line: there is no window to speak of. -/
theorem locate_last (hsplit : start :: bs = earlier ++ [r]) (hrising : Rising (start :: bs)) :
    locate glue len (walk start (pairsAlong start bs)) ⟨r.line, last⟩ =
      ⟨min r.offset len, min r.offset len⟩ := by
  rw [locate_eq _ _ (dropWhile_walk hsplit hrising)]
  simp only [List.find?_nil, Option.map_none, Option.getD_none, List.getLast?_singleton,
    Option.map_some, Option.getD_some, ByteRange.mk.injEq, true_and]
  omega

/-- The search for the last line stops on the way to a place that reaches it, or there. -/
theorem exists_find?_append (between rest : List Breakpoint) {next : Breakpoint}
    (hlast : last ≤ next.line) :
    ∃ c, (between ++ next :: rest).find? (last ≤ ·.line) = some c ∧ (c ∈ between ∨ c = next) := by
  rw [List.find?_append]
  rcases hfind : between.find? (last ≤ ·.line) with _ | c
  · refine ⟨next, ?_, Or.inr rfl⟩
    rw [hfind, Option.none_or, List.find?_cons_of_pos (by simpa using hlast)]
  · refine ⟨c, ?_, Or.inl (List.mem_of_find?_eq_some hfind)⟩
    rw [hfind, Option.some_or]

/-- The window ends on the way to the next rise, at its offset when no other place is on the line
of the window or when the line to be reached is below that. -/
theorem locate_next {next : Breakpoint} (hsplit : start :: bs = earlier ++ r :: next :: later)
    (hrising : Rising (start :: bs)) (hlast : last ≤ next.line) :
    ∃ stop ≤ next.offset,
      locate glue len (walk start (pairsAlong start bs)) ⟨r.line, last⟩ =
        ⟨min r.offset len, max (min stop len - glue) (min r.offset len)⟩ ∧
      (r.line < last ∨
        (walk start (pairsAlong start bs)).countP (·.line == r.line) ≤ 1 → stop = next.offset) := by
  have hlater : Rising (r :: next :: later) := by
    rw [hsplit] at hrising
    exact (List.pairwise_append.mp hrising).2.1
  obtain ⟨hoffset, hline⟩ := (List.pairwise_cons.mp hlater).1 next List.mem_cons_self
  obtain ⟨between, hwalk, hbetween⟩ := walk_pairsAlong_cons later hoffset hline
  obtain ⟨rest, hrest⟩ := walk_eq_cons next (pairsAlong next later)
  have hdrop := dropWhile_walk hsplit hrising
  rw [hwalk, hrest] at hdrop
  obtain ⟨c, hfound, hc⟩ := exists_find?_append between rest hlast
  have hreached : last ≤ c.line := by simpa using List.find?_some hfound
  refine ⟨c.offset, ?_, ?_, ?_⟩
  · rcases hc with hmem | rfl
    · exact (hbetween c hmem).offset
    · exact Nat.le_refl _
  · rw [locate_eq _ _ hdrop, hfound, Option.map_some, Option.getD_some]
  · rintro hclose
    rcases hc with hmem | rfl
    · rcases (hbetween c hmem).either with hsame | hsame
      · exfalso
        rcases hclose with hbelow | hcount
        · omega
        · -- Both this place and the rise itself are on the line of the window.
          have hle := (List.dropWhile_sublist
            (l := walk start (pairsAlong start bs)) (·.line < r.line)).countP_le
            (p := (·.line == r.line))
          have hpos : 0 < (between ++ next :: rest).countP (·.line == r.line) := by
            rw [List.countP_pos_iff]
            exact ⟨c, List.mem_append_left _ hmem, by simpa using hsame⟩
          rw [hdrop, List.countP_cons_of_pos (by simp)] at hle
          omega
      · exact hsame
    · rfl

end Search

/-! ## Where windows start -/

/-- What reaches a later line is found no earlier. -/
theorem start_le_start (glue len : Nat) {breaks : List Breakpoint} {s t : LineSpan}
    (h : breaks.Pairwise fun a b => a.offset ≤ b.offset) (hle : s.first ≤ t.first)
    (hreach : ∃ b ∈ breaks, t.first ≤ b.line) :
    (locate glue len breaks s).start ≤ (locate glue len breaks t).start := by
  suffices hoffset : ((breaks.dropWhile (·.line < s.first)).head?.map (·.offset)).getD 0 ≤
      ((breaks.dropWhile (·.line < t.first)).head?.map (·.offset)).getD 0 by
    simp only [locate]
    omega
  induction breaks with
  | nil => exact Nat.le_refl 0
  | cons b bs ih =>
    obtain ⟨hb, hbs⟩ := List.pairwise_cons.mp h
    by_cases ht : b.line < t.first
    · have hlater : ∃ b ∈ bs, t.first ≤ b.line := by
        obtain ⟨r, hr, hline⟩ := hreach
        rcases List.mem_cons.mp hr with rfl | hr
        · omega
        · exact ⟨r, hr, hline⟩
      rw [List.dropWhile_cons_of_pos (p := fun x : Breakpoint => x.line < t.first)
        (by simpa using ht)]
      by_cases hs : b.line < s.first
      · rw [List.dropWhile_cons_of_pos (by simpa using hs)]
        exact ih hbs hlater
      · -- The earlier search stops here, the later one among the places behind.
        rw [List.dropWhile_cons_of_neg (by simpa using hs)]
        rcases hfound : bs.dropWhile (·.line < t.first) with _ | ⟨r, rest⟩
        · obtain ⟨r, hr, hline⟩ := hlater
          have hpassed := List.dropWhile_eq_nil_iff.mp hfound r hr
          simp only [decide_eq_true_eq] at hpassed
          omega
        · have hr : r ∈ bs := (List.dropWhile_sublist _).subset (hfound ▸ List.mem_cons_self)
          rw [hfound]
          exact hb r hr
    · rw [List.dropWhile_cons_of_neg (p := fun x : Breakpoint => x.line < t.first)
        (by simpa using ht), List.dropWhile_cons_of_neg (by simp only [decide_eq_true_eq]; omega)]

/-- Units on lines in order have windows that start in order, as long as the unit around them
reaches these lines. -/
theorem start_le_of_extract {glue : Nat} {p v w : CodeUnit} {q s t : LineSpan}
    {r range : ByteRange} (hq : resolveSpan p = .ok q) (hs : resolveSpan v = .ok s)
    (ht : resolveSpan w = .ok t) (hv : extract glue p v = .ok r) (hw : extract glue p w = .ok range)
    (hle : s.first ≤ t.first) (hlast : t.first ≤ q.last) : r.start ≤ range.start := by
  rcases hscan : scan p with e | breaks
  · rw [extract, hs, hscan] at hv
    cases hv
  · obtain ⟨hsorted, b, hb, hline⟩ := breakpoints_of_scan hscan hq
    rw [extract, hs, hscan] at hv
    rw [extract, ht, hscan] at hw
    cases hv
    cases hw
    exact start_le_start _ _ hsorted hle ⟨b, hb, hline ▸ hlast⟩

/-! ## The window in code whose lines never go back -/

open Assembler

/-- The window of lines `span` in code that is `front`, down to the first of these lines, and
`behind`, which is below them. -/
structure Found (glue : Nat) (front behind : List Emission) (span : LineSpan)
    (breaks : List Breakpoint) (range : ByteRange) : Prop where
  line : ∀ w ∈ places 0 front, range.start ≤ w.offset ↔ w.line = span.first
  stop_le : range.stop ≤ max ((front.map Emission.size).sum - glue) range.start
  stop : behind ≠ [] → span.first < span.last ∨ breaks.countP (·.line == span.first) ≤ 1 →
    range.stop = max ((front.map Emission.size).sum - glue) range.start

theorem highest_places {top first : Nat} {front : List Emission}
    (htop : ∀ e ∈ front, top ≤ e.line.toNat) (hfront : ∀ e ∈ front, e.line.toNat ≤ first)
    (hreach : ∃ e ∈ front, e.line.toNat = first) : highest top (places 0 front) = first := by
  obtain ⟨e, he, hline⟩ := hreach
  obtain ⟨fs, gs, rfl⟩ := List.append_of_mem he
  apply Nat.le_antisymm
  · refine highest_le (Nat.le_trans (htop e he) (hfront e he)) fun b hb => ?_
    obtain ⟨fs', e', gs', hsplit, rfl⟩ := mem_places hb
    exact hfront e' (by simp [hsplit])
  · rw [← hline]
    exact le_highest_of_mem (mem_places_append 0 fs e gs)

theorem ascending_places (top : Nat) (front : List Emission) :
    ((⟨0, top⟩ : Breakpoint) :: places 0 front).Pairwise fun a b => a.offset ≤ b.offset := by
  refine List.pairwise_cons.mpr ⟨fun _ _ => Nat.zero_le _, ?_⟩
  exact (pairwise_places 0 front).imp Nat.le_of_lt

/-- The last rise of code is at its highest line, and at the first place there. -/
theorem exists_rises_split {top first : Nat} {front : List Emission}
    (hsorted : (front.map (·.line)).Pairwise (· ≤ ·)) (htop : ∀ e ∈ front, top ≤ e.line.toNat)
    (hfront : ∀ e ∈ front, e.line.toNat ≤ first) (hreach : ∃ e ∈ front, e.line.toNat = first) :
    ∃ earlier r, (⟨0, top⟩ : Breakpoint) :: risesAbove top (places 0 front) = earlier ++ [r] ∧
      r.line = first ∧ highest top (places 0 front) = first ∧
      ∀ w ∈ places 0 front, r.offset ≤ w.offset ↔ w.line = first := by
  have hhighest := highest_places htop hfront hreach
  have hascending := ascending_places top front
  obtain ⟨earlier, r, hsplit, hline⟩ : ∃ earlier r,
      (⟨0, top⟩ : Breakpoint) :: risesAbove top (places 0 front) = earlier ++ [r] ∧
        r.line = first :=
    ⟨_, _, (List.dropLast_append_getLast (List.cons_ne_nil _ _)).symm,
      (getLast_risesAbove ⟨0, top⟩ (places 0 front)).trans hhighest⟩
  have hrising : Rising (earlier ++ [r]) := by
    rw [← hsplit]
    exact rising_risesAbove _ _ hascending
  have hr : r ∈ (⟨0, top⟩ : Breakpoint) :: risesAbove top (places 0 front) := by simp [hsplit]
  refine ⟨earlier, r, hsplit, hline, hhighest, ?_⟩
  intro w hw
  constructor
  · intro hle
    obtain ⟨fs, e, gs, hfs, rfl⟩ := mem_places hw
    have he : e ∈ front := by simp [hfs]
    refine Nat.le_antisymm (hfront e he) ?_
    rw [← hline]
    rcases List.mem_cons.mp hr with rfl | hmem
    · exact htop e he
    · exact line_le_of_offset_le hsorted (mem_of_mem_risesAbove hmem) hw hle
  · intro hw'
    obtain ⟨c, hc, hoffset, hreached⟩ := exists_rise hascending hw
    rw [hsplit] at hc
    rcases List.mem_append.mp hc with hc | hc
    · have hbelow := (List.pairwise_append.mp hrising).2.2 c hc r (List.mem_singleton_self r)
      omega
    · rw [← List.mem_singleton.mp hc]
      exact hoffset

/-- The code of an assembler whose lines never go back, cut behind the lines of a window: the window
that is found there. -/
theorem found_of_locate {a : Assembler} {front behind : List Emission} {span : LineSpan}
    (glue : Nat) (hemitted : a.emitted.toList = front ++ behind)
    (hsorted : (a.firstLine :: a.emitted.toList.map (·.line)).Pairwise (· ≤ ·))
    (hfront : ∀ e ∈ front, e.line.toNat ≤ span.first)
    (hbehind : ∀ e ∈ behind, span.first < e.line.toNat ∧ span.last ≤ e.line.toNat)
    (hreach : ∃ e ∈ front, e.line.toNat = span.first) :
    Found glue front behind span
      (walk ⟨0, a.firstLine.toNat⟩ (pairsAlong ⟨0, a.firstLine.toNat⟩ a.rises))
      (locate glue a.sizes.sum
        (walk ⟨0, a.firstLine.toNat⟩ (pairsAlong ⟨0, a.firstLine.toNat⟩ a.rises)) span) := by
  obtain ⟨first, last⟩ := span
  rw [hemitted] at hsorted
  obtain ⟨htop, hlines⟩ := List.pairwise_cons.mp hsorted
  rw [List.map_append] at hlines
  have htop : ∀ e ∈ front, a.firstLine.toNat ≤ e.line.toNat := by
    intro e he
    have hmem : e.line ∈ (front ++ behind).map (·.line) :=
      List.mem_map_of_mem (List.mem_append_left behind he)
    exact UInt32.le_iff_toNat_le.mp (htop e.line hmem)
  obtain ⟨earlier, r, hsplit, rfl, hhighest, hplaces⟩ := exists_rises_split
    (List.pairwise_append.mp hlines).1 htop hfront hreach
  have hrises : (⟨0, a.firstLine.toNat⟩ : Breakpoint) :: a.rises =
      earlier ++ r :: risesAbove r.line (places (0 + (front.map Emission.size).sum) behind) := by
    rw [rises, risesFrom_eq, hemitted, places_append, risesAbove_append, hhighest,
      ← List.cons_append, hsplit, List.append_assoc]
    rfl
  have hrising : Rising ((⟨0, a.firstLine.toNat⟩ : Breakpoint) :: a.rises) := by
    rw [rises, risesFrom_eq]
    exact rising_risesAbove _ _ (ascending_places _ _)
  have hsize : a.sizes.sum = (front.map Emission.size).sum + (behind.map Emission.size).sum := by
    rw [sizes, hemitted, List.map_append, List.sum_append]
  -- The window starts before the end of the code in front.
  have hstart : r.offset ≤ (front.map Emission.size).sum := by
    obtain ⟨e, he, hline⟩ := hreach
    obtain ⟨fs, gs, rfl⟩ := List.append_of_mem he
    have hle := (hplaces _ (mem_places_append 0 fs e gs)).mpr hline
    rw [List.map_append, List.sum_append]
    simp only at hle
    omega
  have hmin : min r.offset a.sizes.sum = r.offset := by omega
  rcases behind with _ | ⟨e, behind⟩
  · rw [locate_last glue _ hrises hrising, hmin]
    exact ⟨hplaces, Nat.le_max_right _ _, fun hne => absurd rfl hne⟩
  · obtain ⟨hbelow, hlast⟩ := hbehind e List.mem_cons_self
    rw [places, risesAbove, if_pos hbelow, Nat.zero_add] at hrises
    obtain ⟨stop, hstop, hlocate, hclose⟩ :=
      locate_next glue a.sizes.sum hrises hrising hlast
    rw [hlocate, hmin]
    simp only at hstop hclose
    refine ⟨hplaces, ?_, ?_⟩
    · dsimp only
      omega
    · intro _ hnear
      have hend := hclose hnear
      dsimp only
      omega

/-- A window behind whose store there is a later line: it ends with the instruction in front of the
store. -/
theorem Found.stop_before_store {front behind : List Emission} {span : LineSpan}
    {breaks : List Breakpoint} {range : ByteRange} {e store : Emission}
    (h : Found store.size (front ++ [e, store]) behind span breaks range) (hbehind : behind ≠ [])
    (hclose : span.first < span.last ∨ breaks.countP (·.line == span.first) ≤ 1)
    (hline : e.line.toNat = span.first) :
    range.start < range.stop ∧ range.stop = (front.map Emission.size).sum + e.size := by
  have hplace := mem_places_append 0 front e [store]
  have hstart : range.start ≤ (front.map Emission.size).sum := by
    simpa using (h.line _ hplace).mpr hline
  have hstop := h.stop hbehind hclose
  have hsum : ((front ++ [e, store]).map Emission.size).sum - store.size =
      (front.map Emission.size).sum + e.size := by
    simp only [List.map_append, List.map_cons, List.map_nil, List.sum_append, List.sum_cons,
      List.sum_nil]
    omega
  rw [hsum] at hstop
  have hpos := size_pos e
  omega

/-- An instruction in a window stands on the first line of the window. -/
theorem Found.line_of_start {glue : Nat} {front behind fs gs : List Emission} {span : LineSpan}
    {breaks : List Breakpoint} {range : ByteRange} {e : Emission}
    (h : Found glue front behind span breaks range) (hes : front ++ behind = fs ++ e :: gs)
    (hstart : range.start ≤ (fs.map Emission.size).sum)
    (hstop : (fs.map Emission.size).sum < range.stop) : e.line.toNat = span.first := by
  have hbefore : (fs.map Emission.size).sum < (front.map Emission.size).sum := by
    have hle := h.stop_le
    omega
  obtain ⟨between, rfl⟩ : ∃ between, front = fs ++ e :: between := by
    rcases List.append_eq_append_iff.mp hes with ⟨xs, rfl, -⟩ | ⟨xs, rfl, hxs⟩
    · rw [List.map_append, List.sum_append] at hbefore
      omega
    · rcases xs with _ | ⟨x, xs⟩
      · rw [List.append_nil] at hbefore
        omega
      · obtain ⟨rfl, -⟩ := List.cons.inj hxs
        exact ⟨xs, rfl⟩
  have hplace := mem_places_append 0 fs e between
  rw [Nat.zero_add] at hplace
  exact (h.line _ hplace).mp hstart

end Window

/-! ## The byte that a window ends with -/

/-- A signature of one byte matches the windows that end with this byte. -/
theorem Classifier.glueMatches_singleton {glue : Nat} {byte : UInt8} {code : Bytes}
    {range : ByteRange} (hle : range.start ≤ range.stop) (hlen : range.stop ≤ code.length) :
    Classifier.glueMatches ⟨glue, [byte]⟩ code range = true ↔
      range.start < range.stop ∧ code[range.stop - 1]? = some byte := by
  have hslice : range.slice? code = some ((code.take range.stop).drop range.start) :=
    if_pos ⟨hle, hlen⟩
  have hsuffix : ∀ bs : Bytes, [byte].isSuffixOf bs = true ↔ bs.getLast? = some byte := by
    intro bs
    rw [List.isSuffixOf_iff_suffix, List.getLast?_eq_some_iff]
    exact ⟨fun ⟨front, h⟩ => ⟨front, h.symm⟩, fun ⟨front, h⟩ => ⟨front, h.symm⟩⟩
  simp only [glueMatches, hslice, List.isEmpty_cons, Bool.not_false, Bool.true_and, hsuffix]
  rw [List.getLast?_drop, List.length_take, Nat.min_eq_left hlen]
  by_cases hempty : range.stop ≤ range.start
  · rw [if_pos hempty]
    simp [Nat.not_lt.mpr hempty]
  · have hlast : range.stop - 1 < code.length := by omega
    rw [if_neg hempty, List.getLast?_take, if_neg (by omega), List.getElem?_eq_getElem hlast,
      Option.some_or]
    simp [Nat.lt_of_not_le hempty]

/-- The bytes of an instruction stand behind those of the instructions before it. -/
theorem Emission.getElem?_bytes (fs gs : List Emission) (e : Emission) {i : Nat}
    (hi : i < e.size) :
    ((fs ++ e :: gs).flatMap Emission.bytes)[(fs.map Emission.size).sum + i]? = e.bytes[i]? := by
  rw [List.flatMap_append, List.flatMap_cons, ← Bytecode.length_flatMap_bytes,
    List.getElem?_append_right (Nat.le_add_right _ _), Nat.add_sub_cancel_left,
    List.getElem?_append_left (by rw [e.length_bytes]; exact hi)]

end UnitAtlas
