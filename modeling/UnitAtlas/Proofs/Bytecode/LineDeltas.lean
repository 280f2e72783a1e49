-- The laws of writing line tables. A written table walks from each breakpoint to the next.
-- The pairs that a large delta is spread over add places in between, but none that shows: the
-- line found at any offset is the one that the breakpoints themselves give.
import Mathlib.Data.List.Chain
import UnitAtlas.Bytecode.LineDeltas
import UnitAtlas.Proofs.Unit.LineTable

namespace UnitAtlas.LineDeltas

open LineTable

/-! ## Tables as pairs -/

/-- A pair of deltas as it stands in the table. -/
def asPair (p : Nat × Nat) : UInt8 × UInt8 := (p.1.toUInt8, p.2.toUInt8)

/-- The pairs that lead from `last` along the breakpoints after it. -/
def pairsAlong (last : Breakpoint) : List Breakpoint → List (UInt8 × UInt8)
  | [] => []
  | b :: bs =>
    (steps (b.offset - last.offset) (b.line - last.line)).map asPair ++ pairsAlong b bs

theorem pairUp_append_flatMap (ds : List (Nat × Nat)) (table : Bytes) :
    pairUp (ds.flatMap (fun p => [p.1.toUInt8, p.2.toUInt8]) ++ table) =
      ds.map asPair ++ pairUp table := by
  induction ds with
  | nil => rfl
  | cons d ds ih =>
    simp only [List.flatMap_cons, List.cons_append, List.nil_append, pairUp, List.map_cons,
      List.cons.injEq]
    exact ⟨rfl, ih⟩

theorem pairUp_encode (last : Breakpoint) (bs : List Breakpoint) :
    pairUp (encode last bs) = pairsAlong last bs := by
  induction bs generalizing last with
  | nil => rfl
  | cons b bs ih => rw [encode, pairsAlong, pairUp_append_flatMap, ih]

theorem length_encode (last : Breakpoint) (bs : List Breakpoint) :
    (encode last bs).length % 2 = 0 := by
  induction bs generalizing last with
  | nil => rfl
  | cons b bs ih =>
    have hpairs : ∀ ds : List (Nat × Nat),
        (ds.flatMap fun p => [p.1.toUInt8, p.2.toUInt8]).length % 2 = 0 := by
      intro ds
      induction ds with
      | nil => rfl
      | cons d ds ih =>
        simp only [List.flatMap_cons, List.length_append, List.length_cons, List.length_nil]
        omega
    rw [encode, List.length_append, Nat.add_mod, ih b, hpairs]

/-! ## One breakpoint to the next -/

theorem moved_asPair (last : Breakpoint) (bytes lines : Nat) (hb : bytes ≤ largest)
    (hl : lines ≤ largest) :
    moved last (asPair (bytes, lines)) = ⟨last.offset + bytes, last.line + lines⟩ := by
  unfold largest at hb hl
  simp only [moved, asPair, Nat.toUInt8, UInt8.toNat_ofNat', Breakpoint.mk.injEq]
  omega

theorem toNat_asPair (bytes lines : Nat) (hl : lines ≤ largest) :
    (asPair (bytes, lines)).2.toNat = lines := by
  unfold largest at hl
  simp only [asPair, Nat.toUInt8, UInt8.toNat_ofNat']
  omega

theorem climb_lineSteps (bytes lines : Nat) : climb ((lineSteps bytes lines).map asPair) = lines := by
  fun_induction lineSteps bytes lines with
  | case1 bytes lines h ih =>
    rw [List.map_cons, climb_cons, ih, toNat_asPair _ _ (Nat.le_refl _)]
    omega
  | case2 bytes lines h =>
    rw [List.map_cons, climb_cons, toNat_asPair _ _ (by omega)]
    rfl

theorem climb_steps (bytes lines : Nat) : climb ((steps bytes lines).map asPair) = lines := by
  fun_induction steps bytes lines with
  | case1 bytes h ih =>
    rw [List.map_cons, climb_cons, ih, toNat_asPair _ _ (Nat.zero_le _)]
    omega
  | case2 bytes h => exact climb_lineSteps bytes lines

/-- The pairs of a large line delta all lead to one offset, where only the last of them shows. -/
theorem lineAt?_walk_lineSteps (bytes lines : Nat) (last : Breakpoint)
    (ps : List (UInt8 × UInt8)) (offset : Nat) (hb : bytes ≤ largest) :
    lineAt? (walk last ((lineSteps bytes lines).map asPair ++ ps)) offset =
      (lineAt? (walk ⟨last.offset + bytes, last.line + lines⟩ ps) offset).or
        (lineAt? [last] offset) := by
  fun_induction lineSteps bytes lines generalizing last with
  | case1 bytes lines h ih =>
    rw [List.map_cons, List.cons_append, walk_cons, lineAt?_cons,
      moved_asPair _ _ _ hb (Nat.le_refl _), ih _ (Nat.zero_le _)]
    have hlines : last.line + largest + (lines - largest) = last.line + lines := by omega
    have hhidden := lineAt?_walk_or ⟨last.offset + bytes, last.line + lines⟩
      ⟨last.offset + bytes, last.line + largest⟩ ps offset (Nat.le_refl _)
    simp only [Nat.add_zero, hlines]
    rw [hhidden, lineAt?_cons last []]
    rfl
  | case2 bytes lines h =>
    rw [List.map_cons, List.map_nil, List.cons_append, List.nil_append, walk_cons, lineAt?_cons,
      moved_asPair _ _ _ hb (by omega), lineAt?_cons last []]
    rfl

/-- The pairs of a large byte delta stay on the line that they come from. -/
theorem lineAt?_walk_steps (bytes lines : Nat) (last : Breakpoint)
    (ps : List (UInt8 × UInt8)) (offset : Nat) :
    lineAt? (walk last ((steps bytes lines).map asPair ++ ps)) offset =
      (lineAt? (walk ⟨last.offset + bytes, last.line + lines⟩ ps) offset).or
        (lineAt? [last] offset) := by
  fun_induction steps bytes lines generalizing last with
  | case1 bytes h ih =>
    rw [List.map_cons, List.cons_append, walk_cons, lineAt?_cons,
      moved_asPair _ _ _ (Nat.le_refl _) (Nat.zero_le _), ih]
    have hbytes : last.offset + largest + (bytes - largest) = last.offset + bytes := by omega
    have hsame : (if last.offset + largest ≤ offset then some last.line else none).or
        (if last.offset ≤ offset then some last.line else none) =
          if last.offset ≤ offset then some last.line else none := by
      by_cases hat : last.offset + largest ≤ offset
      · rw [if_pos hat, if_pos (by omega)]
        rfl
      · rw [if_neg hat]
        rfl
    simp only [Nat.add_zero, hbytes, lineAt?_cons, lineAt?_nil, Option.none_or, Option.or_assoc,
      hsame]
  | case2 bytes h => exact lineAt?_walk_lineSteps bytes lines last ps offset (by omega)

/-! ## All breakpoints -/

/-- Neither offsets nor lines ever go back. -/
def Ascending (last : Breakpoint) (bs : List Breakpoint) : Prop :=
  (last :: bs).IsChain fun a b => a.offset ≤ b.offset ∧ a.line ≤ b.line

/-- The line found at an offset is the one that the breakpoints give. -/
theorem lineAt?_walk_pairsAlong (last : Breakpoint) (bs : List Breakpoint) (offset : Nat)
    (h : Ascending last bs) :
    lineAt? (walk last (pairsAlong last bs)) offset = lineAt? (last :: bs) offset := by
  induction bs generalizing last with
  | nil => rfl
  | cons b bs ih =>
    obtain ⟨⟨hoffset, hline⟩, hrest⟩ := List.isChain_cons_cons.mp h
    have hb : (⟨last.offset + (b.offset - last.offset), last.line + (b.line - last.line)⟩
        : Breakpoint) = b := by
      rw [Nat.add_sub_cancel' hoffset, Nat.add_sub_cancel' hline]
    rw [pairsAlong, lineAt?_walk_steps, hb, ih b hrest, lineAt?_cons last (b :: bs),
      lineAt?_cons last []]
    rfl

/-- The pairs climb to the line of the last breakpoint. -/
theorem climb_pairsAlong (last : Breakpoint) (bs : List Breakpoint) (h : Ascending last bs) :
    last.line + climb (pairsAlong last bs) = ((last :: bs).getLast (by simp)).line := by
  induction bs generalizing last with
  | nil => rfl
  | cons b bs ih =>
    obtain ⟨⟨_, hline⟩, hrest⟩ := List.isChain_cons_cons.mp h
    rw [pairsAlong, climb_append, climb_steps, List.getLast_cons_cons, ← ih b hrest]
    omega

end UnitAtlas.LineDeltas
