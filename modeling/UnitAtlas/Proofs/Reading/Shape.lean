-- Readings whose drafts are all orderly. For values and targets this follows from what they can
-- write: none of them knows loops, the only unit that they make is that of a lambda, and the only
-- floats that they ask for are those written in the tree.
import UnitAtlas.Proofs.Draft.Shape
import UnitAtlas.Proofs.Reading.Values

namespace UnitAtlas

open Syntax Draft

theorem Draft.closed_orderly (q : UInt64 → Bool) : Closed q (Orderly q) where
  skip := trivial
  fail _ := trivial
  plain _ _ := trivial
  counted _ _ := trivial
  literal _ hl := hl
  access _ _ := trivial
  named _ _ := trivial
  jump _ _ := trivial
  seq _ _ hfirst hsecond := ⟨hfirst, hsecond⟩
  block _ hbody := hbody
  lambda shape _ _ hconsts hbody := ⟨by simp [hconsts], rfl, hbody, trivial⟩

/-! ## Readings -/

/-- All roles of a node and of the nodes below it are orderly. -/
inductive Reading.Orderly (q : UInt64 → Bool) : Reading → Prop
  | mk {r : Reading} (hgives : r.Gives (Draft.Orderly q)) (hstatement : r.roles.statement.Orderly q)
      (hsuite : r.roles.suite.Orderly q) (hchildren : ∀ c ∈ r.place.children, c.Orderly q) :
      Reading.Orderly q r

def Place.Orderly (q : UInt64 → Bool) (p : Place Reading) : Prop :=
  ∀ r ∈ p.children, r.Orderly q

namespace Reading.Orderly

variable {q : UInt64 → Bool} {r : Reading}

theorem gives (h : r.Orderly q) : r.Gives (Draft.Orderly q) := by
  cases h with
  | mk hgives => exact hgives

theorem value (h : r.Orderly q) : r.roles.value.Orderly q := h.gives.value

theorem target (h : r.Orderly q) : r.roles.target.Orderly q := h.gives.target

theorem statement (h : r.Orderly q) : r.roles.statement.Orderly q := by
  cases h with
  | mk _ hstatement => exact hstatement

theorem suite (h : r.Orderly q) : r.roles.suite.Orderly q := by
  cases h with
  | mk _ _ hsuite => exact hsuite

theorem place (h : r.Orderly q) : r.place.Orderly q := by
  cases h with
  | mk _ _ _ hchildren => exact hchildren

end Reading.Orderly

namespace Place.Orderly

variable {q : UInt64 → Bool} {p : Place Reading}

theorem gives (h : p.Orderly q) : Reading.GivesBelow (Draft.Orderly q) p :=
  fun r hr => (h r hr).gives

theorem named (h : p.Orderly q) : ∀ r ∈ p.named, r.Orderly q :=
  fun r hr => h r (List.mem_filter.mp hr).1

theorem fields (h : p.Orderly q) (f : Field) : ∀ r ∈ p.fields f, r.Orderly q :=
  fun r hr => h r (List.mem_filter.mp hr).1

theorem field? (h : p.Orderly q) {f : Field} :
    ∀ r, p.field? f = some r → r.Orderly q :=
  fun r hr => h r (List.mem_of_find?_eq_some hr)

theorem head? (h : p.Orderly q) : ∀ r, p.named.head? = some r → r.Orderly q :=
  fun r hr => h.named r (List.mem_of_head? hr)

theorem operands (h : p.Orderly q) : p.operands.Orderly q :=
  Reading.closed_operands (closed_orderly q) h.gives

theorem block (h : p.Orderly q) : p.block.Orderly q :=
  orderly_all_map fun r hr => (h.named r hr).statement

end Place.Orderly

theorem Place.orderly_withText {q : UInt64 → Bool} {p : Place Reading} {f : Field}
    {use : String → Draft} (h : ∀ text, (use text).Orderly q) :
    (p.withText f use).Orderly q :=
  orderly_need fun r _ => h r.text

namespace Reading

variable {q : UInt64 → Bool}

/-- A part that may be missing, made into a draft that fails without it. -/
theorem orderly_need_part {part : Option Reading} (hpart : ∀ r, part = some r → r.Orderly q)
    {e : DraftError} {use : Reading → Draft} (huse : ∀ r, r.Orderly q → (use r).Orderly q) :
    (need part e use).Orderly q :=
  orderly_need fun r hr => huse r (hpart r hr)

theorem orderly_optional {part : Option Reading} (hpart : ∀ r, part = some r → r.Orderly q)
    {use : Reading → Draft} (huse : ∀ r, r.Orderly q → (use r).Orderly q) :
    (optional part use).Orderly q := by
  cases part with
  | none => trivial
  | some r => exact huse r (hpart r rfl)

theorem orderly_storeOrDrop {part : Option Reading}
    (h : ∀ r, part = some r → r.Orderly q) : (storeOrDrop part).Orderly q :=
  closed_storeOrDrop (closed_orderly q) fun r hr => (h r hr).gives

end Reading

end UnitAtlas
