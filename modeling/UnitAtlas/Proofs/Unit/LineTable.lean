-- The laws of reading line tables. A table is a walk: each delta pair moves on from the place
-- before it. Both readers follow the same walk, and both refuse it when it climbs past the
-- range of lines.
import Mathlib.Algebra.GroupWithZero.Nat
import UnitAtlas.Unit.LineTable

namespace UnitAtlas.LineTable

/-! ## The walk over a table -/

/-- The place after a delta pair. -/
def moved (b : Breakpoint) (p : UInt8 × UInt8) : Breakpoint :=
  ⟨b.offset + p.1.toNat, b.line + p.2.toNat⟩

/-- The places that delta pairs lead to, the start first. -/
def walk (start : Breakpoint) (ps : List (UInt8 × UInt8)) : List Breakpoint := ps.scanl moved start

/-- The number of lines that delta pairs climb. -/
def climb (ps : List (UInt8 × UInt8)) : Nat := (ps.map (·.2.toNat)).sum

@[simp] theorem walk_nil (start : Breakpoint) : walk start [] = [start] := rfl

@[simp] theorem walk_cons (start : Breakpoint) (p : UInt8 × UInt8) (ps : List (UInt8 × UInt8)) :
    walk start (p :: ps) = start :: walk (moved start p) ps := by
  simp [walk]

@[simp] theorem climb_nil : climb [] = 0 := rfl

@[simp] theorem climb_cons (p : UInt8 × UInt8) (ps : List (UInt8 × UInt8)) :
    climb (p :: ps) = p.2.toNat + climb ps := by
  simp [climb]

@[simp] theorem climb_append (ps qs : List (UInt8 × UInt8)) :
    climb (ps ++ qs) = climb ps + climb qs := by
  simp [climb]

/-- What is reported when the lines of a unit leave their range. -/
def overflow (u : CodeUnit) : DecodeError :=
  .lineOverflow u.info.name u.info.firstLine.toNat

theorem advance_eq (u : CodeUnit) (line : Nat) (delta : UInt8) :
    advance u line delta =
      if line + delta.toNat < lineBound then .ok (line + delta.toNat) else .error (overflow u) :=
  rfl

/-- The breakpoints are the walk, as long as it stays within the range of lines. -/
theorem trace_eq (u : CodeUnit) (start : Breakpoint) (ps : List (UInt8 × UInt8))
    (hstart : start.line < lineBound) :
    trace u start ps =
      if start.line + climb ps < lineBound then .ok (walk start ps) else .error (overflow u) := by
  induction ps generalizing start with
  | nil =>
    rw [if_pos (by simpa using hstart)]
    rfl
  | cons p ps ih =>
    rw [trace, advance_eq, climb_cons, walk_cons]
    by_cases hp : start.line + p.2.toNat < lineBound
    · have hrest := ih (moved start p) hp
      simp only [moved, Nat.add_assoc] at hrest
      rw [if_pos hp]
      simp only [bind, Except.bind]
      -- Lines only climb, so the rest is refused exactly when the end is out of range.
      by_cases hend : start.line + (p.2.toNat + climb ps) < lineBound
      · rw [if_pos hend] at hrest ⊢
        rw [hrest]
        rfl
      · rw [if_neg hend] at hrest ⊢
        rw [hrest]
    · rw [if_neg hp, if_neg (by omega)]
      rfl

/-- The last line is the first one and all that the table climbs. -/
theorem foldlM_advance_eq (u : CodeUnit) (line : Nat) (ps : List (UInt8 × UInt8))
    (hline : line < lineBound) :
    ps.foldlM (fun line p => advance u line p.2) line =
      if line + climb ps < lineBound then .ok (line + climb ps) else .error (overflow u) := by
  induction ps generalizing line with
  | nil =>
    rw [if_pos (by simpa using hline)]
    rfl
  | cons p ps ih =>
    rw [List.foldlM_cons, advance_eq, climb_cons]
    by_cases hp : line + p.2.toNat < lineBound
    · have hrest := ih (line + p.2.toNat) hp
      rw [Nat.add_assoc] at hrest
      rw [if_pos hp]
      exact hrest
    · rw [if_neg hp, if_neg (by omega)]
      rfl

theorem firstLine_lt (u : CodeUnit) : u.info.firstLine.toNat < lineBound :=
  u.info.firstLine.toNat_lt

theorem scan_eq (u : CodeUnit) (ps : List (UInt8 × UInt8)) (h : pairs u = .ok ps) :
    scan u =
      if u.info.firstLine.toNat + climb ps < lineBound then
        .ok (walk ⟨0, u.info.firstLine.toNat⟩ ps)
      else .error (overflow u) := by
  rw [scan, h]
  exact trace_eq u ⟨0, u.info.firstLine.toNat⟩ ps (firstLine_lt u)

theorem resolveSpan_eq (u : CodeUnit) (ps : List (UInt8 × UInt8)) (h : pairs u = .ok ps) :
    resolveSpan u =
      if u.info.firstLine.toNat + climb ps < lineBound then
        .ok ⟨u.info.firstLine.toNat, u.info.firstLine.toNat + climb ps⟩
      else .error (overflow u) := by
  rw [resolveSpan, h]
  simp only [bind, Except.bind]
  rw [foldlM_advance_eq u _ ps (firstLine_lt u)]
  by_cases hend : u.info.firstLine.toNat + climb ps < lineBound
  · rw [if_pos hend, if_pos hend]
    rfl
  · rw [if_neg hend, if_neg hend]

/-- A table that gives a span is read to its end by both readers. -/
theorem pairs_of_resolveSpan {u : CodeUnit} {s : LineSpan} (h : resolveSpan u = .ok s) :
    ∃ ps, pairs u = .ok ps ∧ scan u = .ok (walk ⟨0, u.info.firstLine.toNat⟩ ps) ∧
      s = ⟨u.info.firstLine.toNat, u.info.firstLine.toNat + climb ps⟩ := by
  rcases hpairs : pairs u with e | ps
  · rw [resolveSpan, hpairs] at h
    cases h
  · rw [resolveSpan_eq u ps hpairs] at h
    split at h
    · rename_i hlines
      cases h
      exact ⟨ps, rfl, by rw [scan_eq u ps hpairs, if_pos hlines], rfl⟩
    · cases h

theorem first_of_resolveSpan {u : CodeUnit} {s : LineSpan} (h : resolveSpan u = .ok s) :
    s.first = u.info.firstLine.toNat := by
  obtain ⟨ps, -, -, rfl⟩ := pairs_of_resolveSpan h
  rfl

theorem first_le_last_of_resolveSpan {u : CodeUnit} {s : LineSpan} (h : resolveSpan u = .ok s) :
    s.first ≤ s.last := by
  obtain ⟨ps, -, -, rfl⟩ := pairs_of_resolveSpan h
  exact Nat.le_add_right _ _

/-- Both readers refuse the same tables. -/
theorem scan_ok_of_resolveSpan {u : CodeUnit} {s : LineSpan} (h : resolveSpan u = .ok s) :
    ∃ breaks, scan u = .ok breaks := by
  obtain ⟨ps, -, hscan, -⟩ := pairs_of_resolveSpan h
  exact ⟨_, hscan⟩

/-! ## Tables that are refused -/

/-- The running line of the table leaves the range of lines at some pair. -/
def RunsOver (u : CodeUnit) : Prop :=
  ∃ n, lineBound ≤ u.info.firstLine.toNat + climb ((pairUp u.info.lineTable).take n)

/-- Lines only climb, so they leave their range if the last one does. -/
theorem runsOver_iff {u : CodeUnit} :
    RunsOver u ↔ lineBound ≤ u.info.firstLine.toNat + climb (pairUp u.info.lineTable) := by
  constructor
  · rintro ⟨n, hn⟩
    have hsplit := climb_append ((pairUp u.info.lineTable).take n) ((pairUp u.info.lineTable).drop n)
    rw [List.take_append_drop] at hsplit
    omega
  · intro h
    refine ⟨(pairUp u.info.lineTable).length, ?_⟩
    rwa [List.take_length]

/-- A table is refused for half a pair at its end, or else for lines out of their range. -/
theorem resolveSpan_eq_error {u : CodeUnit} {e : DecodeError} :
    resolveSpan u = .error e ↔
      (u.info.lineTable.length % 2 = 1 ∧
        e = .oddLineTable u.info.name u.info.lineTable.length) ∨
      (u.info.lineTable.length % 2 = 0 ∧ RunsOver u ∧
        e = .lineOverflow u.info.name u.info.firstLine.toNat) := by
  rcases Nat.mod_two_eq_zero_or_one u.info.lineTable.length with heven | hodd
  · have hpairs : pairs u = .ok (pairUp u.info.lineTable) := if_pos heven
    rw [resolveSpan_eq u _ hpairs, runsOver_iff]
    by_cases hlines : u.info.firstLine.toNat + climb (pairUp u.info.lineTable) < lineBound
    · simp [heven, hlines, Nat.not_le.mpr hlines]
    · simp [heven, hlines, Nat.not_lt.mp hlines, overflow, eq_comm]
  · have hpairs : pairs u = .error (.oddLineTable u.info.name u.info.lineTable.length) :=
      if_neg (by omega)
    rw [resolveSpan, hpairs]
    simp [hodd, bind, Except.bind, eq_comm]

/-! ## The places of a walk -/

theorem length_walk (start : Breakpoint) (ps : List (UInt8 × UInt8)) :
    (walk start ps).length = ps.length + 1 := List.length_scanl

theorem head?_walk (start : Breakpoint) (ps : List (UInt8 × UInt8)) :
    (walk start ps).head? = some start := by
  cases ps <;> simp

/-- A walk ends where all its deltas lead to. -/
theorem getLast?_walk (start : Breakpoint) (ps : List (UInt8 × UInt8)) :
    (walk start ps).getLast? =
      some ⟨start.offset + (ps.map (·.1.toNat)).sum, start.line + climb ps⟩ := by
  induction ps generalizing start with
  | nil => rfl
  | cons p ps ih =>
    rw [walk_cons, List.getLast?_cons, ih, climb_cons, List.map_cons, List.sum_cons]
    simp only [Option.getD_some, moved, Nat.add_assoc]

theorem le_of_mem_walk {start b : Breakpoint} {ps : List (UInt8 × UInt8)}
    (h : b ∈ walk start ps) : start.offset ≤ b.offset ∧ start.line ≤ b.line := by
  induction ps generalizing start with
  | nil =>
    rw [List.mem_singleton.mp h]
    exact ⟨Nat.le_refl _, Nat.le_refl _⟩
  | cons p ps ih =>
    rcases List.mem_cons.mp (walk_cons start p ps ▸ h) with rfl | h
    · exact ⟨Nat.le_refl _, Nat.le_refl _⟩
    · obtain ⟨hoffset, hline⟩ := ih h
      exact ⟨Nat.le_trans (Nat.le_add_right _ _) hoffset,
        Nat.le_trans (Nat.le_add_right _ _) hline⟩

/-- A walk goes back neither in the code nor in the source. -/
theorem pairwise_walk (start : Breakpoint) (ps : List (UInt8 × UInt8)) :
    (walk start ps).Pairwise fun a b => a.offset ≤ b.offset ∧ a.line ≤ b.line := by
  induction ps generalizing start with
  | nil => exact List.pairwise_singleton _ _
  | cons p ps ih =>
    rw [walk_cons]
    refine List.pairwise_cons.mpr ⟨fun b hb => ?_, ih _⟩
    exact le_of_mem_walk (walk_cons start p ps ▸ List.mem_cons_of_mem start hb)

/-- The breakpoints of a unit are in order, and one of them is on the last line that it spans. -/
theorem breakpoints_of_scan {u : CodeUnit} {breaks : List Breakpoint} {s : LineSpan}
    (h : scan u = .ok breaks) (hs : resolveSpan u = .ok s) :
    (breaks.Pairwise fun a b => a.offset ≤ b.offset) ∧ ∃ b ∈ breaks, b.line = s.last := by
  obtain ⟨ps, -, hscan, rfl⟩ := pairs_of_resolveSpan hs
  rw [hscan] at h
  cases h
  exact ⟨(pairwise_walk _ ps).imp And.left, _, List.mem_of_getLast? (getLast?_walk _ ps), rfl⟩

/-- Both readers fail on the tables that are malformed, and with the same error. Of all others they
tell the same: the breakpoints start at the first line, there is one more for each pair, they never
go back, and the last of them is behind all deltas, on the last line of the span. -/
theorem both_readers_of_a_table_agree (u : CodeUnit) :
    ((u.info.lineTable.length % 2 = 1 ∨ RunsOver u) ∧
      ∃ e, resolveSpan u = .error e ∧ scan u = .error e) ∨
    ∃ ps span breaks, pairs u = .ok ps ∧ resolveSpan u = .ok span ∧ scan u = .ok breaks ∧
      breaks.length = ps.length + 1 ∧ breaks.head? = some ⟨0, u.info.firstLine.toNat⟩ ∧
      breaks.getLast? = some ⟨(ps.map (·.1.toNat)).sum, span.last⟩ ∧
      (breaks.Pairwise fun a b => a.offset ≤ b.offset ∧ a.line ≤ b.line) ∧
      span.first = u.info.firstLine.toNat ∧ span.first ≤ span.last := by
  rcases Nat.mod_two_eq_zero_or_one u.info.lineTable.length with heven | hodd
  · have hpairs : pairs u = .ok (pairUp u.info.lineTable) := if_pos heven
    have hspan := resolveSpan_eq u _ hpairs
    have hscan := scan_eq u _ hpairs
    by_cases hlines : u.info.firstLine.toNat + climb (pairUp u.info.lineTable) < lineBound
    · rw [if_pos hlines] at hspan hscan
      have hlast := getLast?_walk ⟨0, u.info.firstLine.toNat⟩ (pairUp u.info.lineTable)
      rw [Nat.zero_add] at hlast
      exact Or.inr ⟨_, _, _, hpairs, hspan, hscan, length_walk _ _, head?_walk _ _, hlast,
        pairwise_walk _ _, rfl, Nat.le_add_right _ _⟩
    · rw [if_neg hlines] at hspan hscan
      exact Or.inl ⟨Or.inr (runsOver_iff.mpr (Nat.not_lt.mp hlines)), _, hspan, hscan⟩
  · have hpairs : pairs u = .error (.oddLineTable u.info.name u.info.lineTable.length) :=
      if_neg (by omega)
    refine Or.inl ⟨Or.inl hodd, .oddLineTable u.info.name u.info.lineTable.length, ?_, ?_⟩
    · rw [resolveSpan, hpairs]
      rfl
    · rw [scan, hpairs]
      rfl

/-! ## The line at an offset -/

/-- The line of the last breakpoint at or before an offset. -/
def lineAt? (breaks : List Breakpoint) (offset : Nat) : Option Nat :=
  ((breaks.filter (·.offset ≤ offset)).getLast?).map (·.line)

@[simp] theorem lineAt?_nil (offset : Nat) : lineAt? [] offset = none := rfl

theorem lineAt?_cons (b : Breakpoint) (breaks : List Breakpoint) (offset : Nat) :
    lineAt? (b :: breaks) offset =
      (lineAt? breaks offset).or (if b.offset ≤ offset then some b.line else none) := by
  unfold lineAt?
  by_cases hb : b.offset ≤ offset
  · rw [List.filter_cons_of_pos (by simpa using hb), if_pos hb, List.getLast?_cons]
    cases (breaks.filter (·.offset ≤ offset)).getLast? <;> rfl
  · rw [List.filter_cons_of_neg (by simpa using hb), if_neg hb, Option.or_none]

theorem lineAt?_eq_none {breaks : List Breakpoint} {offset : Nat}
    (h : ∀ b ∈ breaks, offset < b.offset) : lineAt? breaks offset = none := by
  have hnone : breaks.filter (·.offset ≤ offset) = [] := by
    rw [List.filter_eq_nil_iff]
    intro b hb
    have := h b hb
    simp only [decide_eq_true_eq]
    omega
  rw [lineAt?, hnone]
  rfl

/-- A walk has a line for every offset from its start on. -/
theorem lineAt?_walk_isSome (start : Breakpoint) (ps : List (UInt8 × UInt8)) (offset : Nat)
    (h : start.offset ≤ offset) : (lineAt? (walk start ps) offset).isSome := by
  cases ps <;> simp [lineAt?_cons, h]

/-- So a walk hides what stands before it at or behind its start. -/
theorem lineAt?_walk_or (start b : Breakpoint) (ps : List (UInt8 × UInt8)) (offset : Nat)
    (h : start.offset ≤ b.offset) :
    (lineAt? (walk start ps) offset).or (lineAt? [b] offset) = lineAt? (walk start ps) offset := by
  by_cases hb : b.offset ≤ offset
  · exact Option.or_of_isSome (lineAt?_walk_isSome start ps offset (by omega))
  · rw [lineAt?_cons, if_neg hb]
    simp

end UnitAtlas.LineTable
