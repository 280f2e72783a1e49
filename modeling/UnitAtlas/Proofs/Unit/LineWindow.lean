-- The window of a unit whose code has its line to itself: what stands before the code is on earlier
-- lines, and what stands behind it is on later ones. The window is this code, less the store.
import UnitAtlas.Proofs.Unit.SplitDeltas

namespace UnitAtlas

open LineTable LineDeltas

theorem LineDeltas.topOnTheWay_lt {p r : Breakpoint} (h : p.line < r.line) :
    topOnTheWay p r < r.line := by
  simp only [topOnTheWay, largest]
  omega

namespace Assembler

variable {a : Assembler} {front own behind : List Emission} {f e : Emission}

/-- Code that stays on lines reached before has no rise. -/
theorem risesAbove_eq_nil {top : Nat} {bs : List Breakpoint} (h : ∀ b ∈ bs, b.line ≤ top) :
    risesAbove top bs = [] := by
  induction bs with
  | nil => rfl
  | cons b bs ih =>
    obtain ⟨hb, hbs⟩ := List.forall_mem_cons.mp h
    rw [risesAbove, if_neg (Nat.not_lt.mpr hb), ih hbs]

/-- The first rise behind such code is where it ends. -/
theorem exists_risesAbove_eq_cons {top : Nat} (offset : Nat) (behind : List Emission)
    (hown : ∀ x ∈ own, x.line.toNat ≤ top) (he : top < e.line.toNat) :
    ∃ later, risesAbove top (places offset (own ++ e :: behind)) =
      ⟨offset + (own.map Emission.size).sum, e.line.toNat⟩ :: later := by
  have hlines : ∀ b ∈ places offset own, b.line ≤ top := by
    intro b hb
    obtain ⟨xs, x, ys, rfl, rfl⟩ := mem_places hb
    exact hown x (by simp)
  have htop : highest top (places offset own) = top :=
    Nat.le_antisymm (highest_le (Nat.le_refl top) hlines) le_highest
  rw [places_append, risesAbove_append, risesAbove_eq_nil hlines, htop, places, risesAbove,
    if_pos he]
  exact ⟨_, rfl⟩

/-- The code of one line among code on other lines: `f` is its first instruction, and `e` the first
one behind it. Where the unit starts on the line itself, nothing stands before. -/
structure OnItsLine (a : Assembler) (front : List Emission) (f : Emission) (own : List Emission)
    (e : Emission) (behind : List Emission) : Prop where
  emitted : a.emitted.toList = front ++ f :: (own ++ e :: behind)
  starts : a.firstLine ≤ f.line
  opens : a.firstLine < f.line ∨ front = []
  before : ∀ x ∈ front, x.line < f.line
  stays : ∀ x ∈ own, x.line = f.line
  leaves : f.line < e.line

/-- Passing over all earlier lines leads to its first instruction, and on to what is behind. -/
theorem OnItsLine.dropWhile_rises (h : a.OnItsLine front f own e behind) :
    ∃ later, ((⟨0, a.firstLine.toNat⟩ : Breakpoint) :: a.rises).dropWhile
        (·.line < f.line.toNat) =
      ⟨(front.map Emission.size).sum, f.line.toNat⟩ ::
        ⟨((front ++ f :: own).map Emission.size).sum, e.line.toNat⟩ :: later := by
  have hown : ∀ x ∈ own, x.line.toNat ≤ f.line.toNat := fun x hx => by rw [h.stays x hx]
  have hbehind := UInt32.lt_iff_toNat_lt.mp h.leaves
  rw [rises_eq, written, h.emitted]
  rcases UInt32.lt_or_eq_of_le h.starts with hfirst | hfirst
  · have hfirst := UInt32.lt_iff_toNat_lt.mp hfirst
    have hlines : ∀ b ∈ places 0 front, b.line < f.line.toNat := by
      intro b hb
      obtain ⟨xs, x, ys, rfl, rfl⟩ := mem_places hb
      exact UInt32.lt_iff_toNat_lt.mp (h.before x (by simp))
    have hpassed : ∀ b ∈ (⟨0, a.firstLine.toNat⟩ : Breakpoint) ::
        risesAbove a.firstLine.toNat (places 0 front), decide (b.line < f.line.toNat) = true := by
      simp only [decide_eq_true_eq]
      exact List.forall_mem_cons.mpr ⟨hfirst, fun b hb => hlines b (mem_of_mem_risesAbove hb)⟩
    obtain ⟨later, hlater⟩ := exists_risesAbove_eq_cons
      (0 + (front.map Emission.size).sum + f.size) behind hown hbehind
    rw [places_append, risesAbove_append, places, risesAbove, if_pos (highest_lt hfirst hlines),
      hlater, ← List.cons_append, List.dropWhile_append_of_pos hpassed,
      List.dropWhile_cons_of_neg (by simp)]
    refine ⟨later, ?_⟩
    simp [Nat.add_assoc]
  · obtain rfl : front = [] := h.opens.resolve_left (by rw [hfirst]; exact UInt32.lt_irrefl _)
    obtain ⟨later, hlater⟩ := exists_risesAbove_eq_cons 0 behind
      (List.forall_mem_cons.mpr ⟨Nat.le_refl f.line.toNat, hown⟩) hbehind
    rw [hfirst, List.nil_append, ← List.cons_append, hlater,
      List.dropWhile_cons_of_neg (by simp)]
    refine ⟨later, ?_⟩
    simp

end Assembler

namespace Window

open Assembler

variable {a : Assembler} {front own behind : List Emission} {f e : Emission} {s : LineSpan}

/-- The window is the code on the line, less the store, when the unit ends on a later line or when
one pair of the line table passes the code. -/
theorem locate_of_onItsLine (h : a.OnItsLine front f own e behind) (glue : Nat)
    (hfirst : s.first = f.line.toNat) (hspan : s.first ≤ s.last) (hlast : s.last ≤ e.line.toNat)
    (hclose : s.first < s.last ∨ ((f :: own).map Emission.size).sum ≤ largest) :
    locate glue a.code.length a.tablePlaces s = ⟨(front.map Emission.size).sum,
      max (((front ++ f :: own).map Emission.size).sum - glue) (front.map Emission.size).sum⟩ := by
  obtain ⟨later, hdrop⟩ := h.dropWhile_rises
  rw [← hfirst] at hdrop
  have hlen := offset_le_of_mem_rises a
  have hsees : ¬ SeesSplit glue (⟨0, a.firstLine.toNat⟩ :: a.rises) s := by
    rintro ⟨r, next, rest, hr, hreached, -, hsplit⟩
    rw [hdrop] at hr
    cases hr
    rw [List.map_append, List.sum_append] at hsplit
    rcases hsplit with hfar | ⟨p, hp, htop⟩
    · have hnear := hclose.resolve_left (Nat.not_lt.mpr hreached)
      simp only at hfar
      omega
    · have hpassed : p.line < s.first := by
        simpa using List.mem_takeWhile_imp (List.mem_of_getLast? hp)
      exact absurd htop (Nat.not_le.mpr (topOnTheWay_lt hpassed))
  have hmem : ∀ b ∈ (⟨(front.map Emission.size).sum, s.first⟩ : Breakpoint) ::
      ⟨((front ++ f :: own).map Emission.size).sum, e.line.toNat⟩ :: later,
      b.offset ≤ a.code.length := fun b hb => hlen b ((List.dropWhile_sublist _).subset (hdrop ▸ hb))
  rw [tablePlaces, (locate_walk_eq_iff (rising_rises a) hspan hlen).mpr hsees,
    locate_of_find?_tail hdrop (List.find?_cons_of_pos (by simpa using hlast)),
    Nat.min_eq_left (hmem _ List.mem_cons_self), Nat.min_eq_left (hmem _ (by simp))]

end Window

end UnitAtlas
