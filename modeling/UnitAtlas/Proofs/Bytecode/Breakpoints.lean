-- The breakpoints of a written line table. They are the rises in the code and, where a delta did
-- not fit one pair, places on the way from one rise to the next: on the line before the rise, or
-- at the offset of the rise but above its line.
import UnitAtlas.Proofs.Bytecode.History

namespace UnitAtlas

open LineTable LineDeltas

namespace LineDeltas

/-! ## From one rise to the next -/

/-- A place between a breakpoint and the next rise. -/
structure OnTheWay (last next b : Breakpoint) : Prop where
  offset : b.offset ≤ next.offset
  first : last.line ≤ b.line
  line : b.line < next.line
  either : b.line = last.line ∨ b.offset = next.offset

theorem walk_eq_cons (start : Breakpoint) (ps : List (UInt8 × UInt8)) :
    ∃ rest, walk start ps = start :: rest := by
  cases ps with
  | nil => exact ⟨[], rfl⟩
  | cons p ps => exact ⟨_, walk_cons start p ps⟩

/-- The highest line that the pairs from one breakpoint to the next stop at on the way. -/
def topOnTheWay (last next : Breakpoint) : Nat :=
  last.line + largest * ((next.line - last.line - 1) / largest)

/-- The places that a line delta adds: at the offset of the next breakpoint, and up to the highest
line on the way. -/
structure Climbs (last next : Breakpoint) (climbing : List Breakpoint) : Prop where
  offset : ∀ b ∈ climbing, b.offset = next.offset
  line : ∀ b ∈ climbing, last.line ≤ b.line ∧ b.line < next.line
  top : ∀ line, last.line < line →
    ((∃ b ∈ climbing, line ≤ b.line) ↔ line ≤ topOnTheWay last next)

theorem walk_lineSteps (bytes lines : Nat) (last : Breakpoint) (ps : List (UInt8 × UInt8))
    (hb : bytes ≤ largest) :
    ∃ climbing, walk last ((lineSteps bytes lines).map asPair ++ ps) =
        last :: (climbing ++ walk ⟨last.offset + bytes, last.line + lines⟩ ps) ∧
      Climbs last ⟨last.offset + bytes, last.line + lines⟩ climbing := by
  fun_induction lineSteps bytes lines generalizing last with
  | case1 bytes lines h ih =>
    obtain ⟨climbing, hwalk, hclimbs⟩ :=
      ih ⟨last.offset + bytes, last.line + largest⟩ (Nat.zero_le _)
    have hlines : last.line + largest + (lines - largest) = last.line + lines := by omega
    simp only [Nat.add_zero, hlines] at hwalk hclimbs
    refine ⟨⟨last.offset + bytes, last.line + largest⟩ :: climbing, ?_, ?_, ?_, ?_⟩
    · rw [List.map_cons, List.cons_append, walk_cons, moved_asPair _ _ _ hb (Nat.le_refl _), hwalk]
      rfl
    · exact List.forall_mem_cons.mpr ⟨rfl, hclimbs.offset⟩
    · refine List.forall_mem_cons.mpr ⟨⟨Nat.le_add_right _ _, by simp only; omega⟩, ?_⟩
      intro b hb
      obtain ⟨hfirst, hline⟩ := hclimbs.line b hb
      exact ⟨Nat.le_trans (Nat.le_add_right _ _) hfirst, hline⟩
    · intro line hline
      have htop := hclimbs.top line
      simp only [List.mem_cons, exists_eq_or_imp, topOnTheWay, largest] at h htop ⊢
      by_cases hnear : line ≤ last.line + 255
      · exact iff_of_true (Or.inl hnear) (by omega)
      · rw [htop (by omega)]
        omega
  | case2 bytes lines h =>
    refine ⟨[], ?_, List.forall_mem_nil _, List.forall_mem_nil _, ?_⟩
    · rw [List.map_cons, List.map_nil, List.cons_append, List.nil_append, walk_cons,
        moved_asPair _ _ _ hb (by omega)]
      rfl
    · intro line hline
      simp only [List.not_mem_nil, false_and, exists_false, false_iff, topOnTheWay, largest] at h ⊢
      omega

/-- The places that a byte delta adds stay on the line that they come from. -/
theorem walk_steps (bytes lines : Nat) (last : Breakpoint) (ps : List (UInt8 × UInt8)) :
    ∃ flat climbing, walk last ((steps bytes lines).map asPair ++ ps) =
        last :: (flat ++ (climbing ++ walk ⟨last.offset + bytes, last.line + lines⟩ ps)) ∧
      (∀ b ∈ flat, b.offset ≤ last.offset + bytes ∧ b.line = last.line) ∧
      Climbs last ⟨last.offset + bytes, last.line + lines⟩ climbing := by
  fun_induction steps bytes lines generalizing last with
  | case1 bytes h ih =>
    obtain ⟨flat, climbing, hwalk, hflat, hclimbs⟩ := ih ⟨last.offset + largest, last.line⟩
    have hbytes : last.offset + largest + (bytes - largest) = last.offset + bytes := by omega
    simp only [hbytes] at hwalk hflat hclimbs
    refine ⟨⟨last.offset + largest, last.line⟩ :: flat, climbing, ?_, ?_,
      hclimbs.offset, hclimbs.line, hclimbs.top⟩
    · rw [List.map_cons, List.cons_append, walk_cons,
        moved_asPair _ _ _ (Nat.le_refl _) (Nat.zero_le _)]
      simp only [Nat.add_zero]
      rw [hwalk]
      rfl
    · exact List.forall_mem_cons.mpr ⟨⟨by simp only; omega, rfl⟩, hflat⟩
  | case2 bytes h =>
    obtain ⟨climbing, hwalk, hclimbs⟩ := walk_lineSteps bytes lines last ps (by omega)
    exact ⟨[], climbing, hwalk, List.forall_mem_nil _, hclimbs⟩

/-- Each breakpoint is behind the one before it, on a later line. -/
def Rising (bs : List Breakpoint) : Prop :=
  bs.Pairwise fun a b => a.offset ≤ b.offset ∧ a.line < b.line

theorem walk_pairsAlong_climbs {last next : Breakpoint} (bs : List Breakpoint)
    (hoffset : last.offset ≤ next.offset) (hline : last.line < next.line) :
    ∃ flat climbing, walk last (pairsAlong last (next :: bs)) =
        last :: (flat ++ (climbing ++ walk next (pairsAlong next bs))) ∧
      (∀ b ∈ flat, b.offset ≤ next.offset ∧ b.line = last.line) ∧ Climbs last next climbing := by
  have hnext : (⟨last.offset + (next.offset - last.offset), last.line + (next.line - last.line)⟩
      : Breakpoint) = next := by
    rw [Nat.add_sub_cancel' hoffset, Nat.add_sub_cancel' (Nat.le_of_lt hline)]
  have hsteps := walk_steps (next.offset - last.offset) (next.line - last.line) last
    (pairsAlong next bs)
  rw [hnext, Nat.add_sub_cancel' hoffset] at hsteps
  exact hsteps

theorem walk_pairsAlong_cons {last next : Breakpoint} (bs : List Breakpoint)
    (hoffset : last.offset ≤ next.offset) (hline : last.line < next.line) :
    ∃ between, walk last (pairsAlong last (next :: bs)) =
        last :: (between ++ walk next (pairsAlong next bs)) ∧
      ∀ b ∈ between, OnTheWay last next b := by
  obtain ⟨flat, climbing, hwalk, hflat, hclimbs⟩ := walk_pairsAlong_climbs bs hoffset hline
  refine ⟨flat ++ climbing, by rw [hwalk, List.append_assoc], ?_⟩
  intro b hb
  rcases List.mem_append.mp hb with hb | hb
  · obtain ⟨hle, hsame⟩ := hflat b hb
    exact ⟨hle, Nat.le_of_eq hsame.symm, hsame ▸ hline, Or.inl hsame⟩
  · obtain ⟨hfirst, hbelow⟩ := hclimbs.line b hb
    have hsame := hclimbs.offset b hb
    exact ⟨Nat.le_of_eq hsame, hfirst, hbelow, Or.inr hsame⟩

/-- The places in front of a rise are all above its line. -/
theorem exists_walk_split {last r : Breakpoint} {bs earlier later : List Breakpoint}
    (hsplit : last :: bs = earlier ++ r :: later) (hrising : Rising (last :: bs)) :
    ∃ passed, walk last (pairsAlong last bs) = passed ++ walk r (pairsAlong r later) ∧
      ∀ b ∈ passed, b.line < r.line := by
  induction earlier generalizing last bs with
  | nil =>
    obtain ⟨rfl, rfl⟩ := List.cons_eq_cons.mp hsplit
    exact ⟨[], rfl, List.forall_mem_nil _⟩
  | cons first earlier ih =>
    obtain ⟨rfl, hbs⟩ := List.cons_eq_cons.mp hsplit
    obtain ⟨hlast, hrest⟩ := List.pairwise_cons.mp hrising
    have hr : r ∈ bs := by simp [hbs]
    rcases bs with _ | ⟨next, bs⟩
    · cases hr
    obtain ⟨hoffset, hline⟩ := hlast next List.mem_cons_self
    obtain ⟨between, hwalk, hbetween⟩ := walk_pairsAlong_cons bs hoffset hline
    obtain ⟨passed, hpassed, hbelow⟩ := ih hbs hrest
    have hnext : next.line ≤ r.line := by
      rcases List.mem_cons.mp hr with rfl | hr
      · exact Nat.le_refl _
      · exact Nat.le_of_lt ((List.pairwise_cons.mp hrest).1 r hr).2
    refine ⟨last :: (between ++ passed), by simp [hwalk, hpassed], ?_⟩
    refine List.forall_mem_cons.mpr ⟨(hlast r hr).2, List.forall_mem_append.mpr ⟨?_, hbelow⟩⟩
    intro b hb
    exact Nat.lt_of_lt_of_le (hbetween b hb).line hnext

theorem dropWhile_walk_of_le {first : Nat} {r : Breakpoint} (h : first ≤ r.line)
    (ps : List (UInt8 × UInt8)) : (walk r ps).dropWhile (·.line < first) = walk r ps := by
  obtain ⟨rest, hrest⟩ := walk_eq_cons r ps
  rw [hrest, List.dropWhile_cons_of_neg (by simpa using h)]

/-- What is left when the places before the line of a rise are passed over. -/
theorem dropWhile_walk {last r : Breakpoint} {bs earlier later : List Breakpoint}
    (hsplit : last :: bs = earlier ++ r :: later) (hrising : Rising (last :: bs)) :
    (walk last (pairsAlong last bs)).dropWhile (·.line < r.line) =
      walk r (pairsAlong r later) := by
  obtain ⟨passed, hwalk, hbelow⟩ := exists_walk_split hsplit hrising
  rw [hwalk, List.dropWhile_append_of_pos (by simpa using hbelow),
    dropWhile_walk_of_le (Nat.le_refl _)]

end LineDeltas

namespace Assembler

/-! ## The rises of code -/

theorem risesAbove_append (top : Nat) (bs cs : List Breakpoint) :
    risesAbove top (bs ++ cs) = risesAbove top bs ++ risesAbove (highest top bs) cs := by
  induction bs generalizing top with
  | nil => rfl
  | cons b bs ih =>
    rw [List.cons_append, risesAbove, risesAbove, ih, ih, highest_cons]
    by_cases hb : top < b.line
    · rw [if_pos hb, if_pos hb, Nat.max_eq_right (Nat.le_of_lt hb), List.cons_append]
    · rw [if_neg hb, if_neg hb, Nat.max_eq_left (by omega)]

theorem rising_risesAbove (start : Breakpoint) (bs : List Breakpoint)
    (h : (start :: bs).Pairwise fun a b => a.offset ≤ b.offset) :
    Rising (start :: risesAbove start.line bs) := by
  induction bs generalizing start with
  | nil => exact List.pairwise_singleton _ _
  | cons b bs ih =>
    obtain ⟨hstart, hbs⟩ := List.pairwise_cons.mp h
    rw [risesAbove]
    split
    · rename_i hrise
      have hrest := ih b hbs
      refine List.pairwise_cons.mpr ⟨?_, hrest⟩
      intro c hc
      rcases List.mem_cons.mp hc with rfl | hc
      · exact ⟨hstart _ List.mem_cons_self, hrise⟩
      · have hlater := (List.pairwise_cons.mp hrest).1 c hc
        exact ⟨hstart c (List.mem_cons_of_mem b (mem_of_mem_risesAbove hc)), by omega⟩
    · refine ih start (List.pairwise_cons.mpr ⟨?_, (List.pairwise_cons.mp hbs).2⟩)
      intro c hc
      exact hstart c (List.mem_cons_of_mem b hc)

/-- Each line is reached by a rise that stands no later. -/
theorem exists_rise {start w : Breakpoint} {bs : List Breakpoint}
    (h : (start :: bs).Pairwise fun a b => a.offset ≤ b.offset) (hw : w ∈ bs) :
    ∃ r ∈ start :: risesAbove start.line bs, r.offset ≤ w.offset ∧ w.line ≤ r.line := by
  induction bs generalizing start with
  | nil => cases hw
  | cons b bs ih =>
    obtain ⟨hstart, hbs⟩ := List.pairwise_cons.mp h
    rw [risesAbove]
    rcases List.mem_cons.mp hw with rfl | hw
    · split
      · exact ⟨w, by simp, Nat.le_refl _, Nat.le_refl _⟩
      · exact ⟨start, by simp, hstart w List.mem_cons_self, by omega⟩
    · split
      · obtain ⟨r, hr, hrise⟩ := ih hbs hw
        exact ⟨r, List.mem_cons_of_mem start hr, hrise⟩
      · refine ih (List.pairwise_cons.mpr ⟨?_, (List.pairwise_cons.mp hbs).2⟩) hw
        intro c hc
        exact hstart c (List.mem_cons_of_mem b hc)

theorem highest_le {top bound : Nat} {bs : List Breakpoint} (htop : top ≤ bound)
    (hbs : ∀ b ∈ bs, b.line ≤ bound) : highest top bs ≤ bound := by
  have hlt := highest_lt (Nat.lt_succ_of_le htop) fun b hb => Nat.lt_succ_of_le (hbs b hb)
  omega

theorem le_highest {top : Nat} {bs : List Breakpoint} : top ≤ highest top bs := by
  induction bs generalizing top with
  | nil => exact Nat.le_refl _
  | cons b bs ih => exact Nat.le_trans (Nat.le_max_left _ _) ih

theorem le_highest_of_mem {top : Nat} {bs : List Breakpoint} {b : Breakpoint} (hb : b ∈ bs) :
    b.line ≤ highest top bs := by
  induction bs generalizing top with
  | nil => cases hb
  | cons c bs ih =>
    rcases List.mem_cons.mp hb with rfl | hb
    · exact Nat.le_trans (Nat.le_max_right _ _) le_highest
    · exact ih hb

theorem highest_eq (top : Nat) (bs : List Breakpoint) :
    highest top bs = top ∨ ∃ b ∈ bs, highest top bs = b.line := by
  induction bs generalizing top with
  | nil => exact Or.inl rfl
  | cons b bs ih =>
    rw [highest_cons]
    rcases ih (max top b.line) with htop | ⟨c, hc, hline⟩
    · rcases Nat.le_total top b.line with hle | hle
      · exact Or.inr ⟨b, List.mem_cons_self, by rw [htop, Nat.max_eq_right hle]⟩
      · exact Or.inl (by rw [htop, Nat.max_eq_left hle])
    · exact Or.inr ⟨c, List.mem_cons_of_mem b hc, hline⟩

/-! ## The places of code whose lines never go back -/

theorem mem_places {offset : Nat} {es : List Emission} {w : Breakpoint}
    (h : w ∈ places offset es) :
    ∃ fs e gs, es = fs ++ e :: gs ∧ w = ⟨offset + (fs.map Emission.size).sum, e.line.toNat⟩ := by
  induction es generalizing offset with
  | nil => cases h
  | cons e es ih =>
    rcases List.mem_cons.mp h with rfl | h
    · exact ⟨[], e, es, rfl, rfl⟩
    · obtain ⟨fs, e', gs, rfl, rfl⟩ := ih h
      exact ⟨e :: fs, e', gs, rfl, by rw [List.map_cons, List.sum_cons, Nat.add_assoc]⟩

theorem mem_places_append (offset : Nat) (fs : List Emission) (e : Emission)
    (gs : List Emission) :
    ⟨offset + (fs.map Emission.size).sum, e.line.toNat⟩ ∈ places offset (fs ++ e :: gs) := by
  rw [places_append]
  exact List.mem_append_right _ List.mem_cons_self

/-- The span of written code: it starts at the first line, reaches all lines of the instructions,
and ends on one of these lines. -/
structure SpanOf (top : UInt32) (es : List Emission) (s : LineSpan) : Prop where
  first : s.first = top.toNat
  le_last : ∀ x ∈ top :: es.map (·.line), x.toNat ≤ s.last
  last : ∃ x ∈ top :: es.map (·.line), s.last = x.toNat

theorem exists_span_of_tableOf {a : Assembler} {u : CodeUnit} (h : TableOf a u) :
    ∃ s, resolveSpan u = .ok s ∧ SpanOf u.info.firstLine a.emitted.toList s := by
  rw [h.firstLine]
  refine ⟨_, resolveSpan_of_tableOf h, rfl, ?_, ?_⟩
  · refine List.forall_mem_cons.mpr ⟨le_highest, ?_⟩
    intro x hx
    obtain ⟨e, he, rfl⟩ := List.mem_map.mp hx
    obtain ⟨fs, gs, hes⟩ := List.append_of_mem he
    have hplace := mem_places_append 0 fs e gs
    rw [← hes] at hplace
    exact le_highest_of_mem hplace
  · rcases highest_eq a.firstLine.toNat a.written with htop | ⟨b, hb, hline⟩
    · exact ⟨a.firstLine, List.mem_cons_self, htop⟩
    · obtain ⟨fs, e, gs, hes, rfl⟩ := mem_places hb
      have he : e ∈ a.emitted.toList := by simp [hes]
      exact ⟨e.line, List.mem_cons_of_mem _ (List.mem_map_of_mem he), hline⟩

/-- Lines in order are at offsets in order. -/
theorem line_le_of_offset_le {offset : Nat} {es : List Emission}
    (h : (es.map (·.line)).Pairwise (· ≤ ·)) {v w : Breakpoint} (hv : v ∈ places offset es)
    (hw : w ∈ places offset es) (hle : v.offset ≤ w.offset) : v.line ≤ w.line := by
  induction es generalizing offset with
  | nil => cases hv
  | cons e es ih =>
    obtain ⟨hfirst, hrest⟩ := List.pairwise_cons.mp h
    rcases List.mem_cons.mp hv with rfl | hv
    · rcases List.mem_cons.mp hw with rfl | hw
      · exact Nat.le_refl _
      · obtain ⟨fs, e', gs, rfl, rfl⟩ := mem_places hw
        exact UInt32.le_iff_toNat_le.mp (hfirst e'.line (by simp))
    · rcases List.mem_cons.mp hw with rfl | hw
      · have hbehind := offset_le_of_mem_places hv
        have hsize := size_pos e
        simp only at hle
        omega
      · exact ih hrest hv hw

end Assembler

end UnitAtlas
