-- The lambdas that a draft makes, and the lambdas among the units that it becomes: these are made
-- of those, each of its own.
import Mathlib.Algebra.BigOperators.Group.List.Basic
import Mathlib.Algebra.Order.Group.Multiset
import UnitAtlas.Proofs.Draft.Parts

namespace UnitAtlas

/-! ## Lambdas among units -/

namespace CodeUnit

mutual
/-- The lambdas among a unit and all units below it. -/
def lambdas : CodeUnit → List CodeUnit
  | ⟨info, consts⟩ =>
    (if isLambda ⟨info, consts⟩ then [⟨info, consts⟩] else []) ++ lambdasAmong consts

def lambdasAmong : List (Constant CodeUnit) → List CodeUnit
  | [] => []
  | .literal _ :: cs => lambdasAmong cs
  | .unit u :: cs => lambdas u ++ lambdasAmong cs
end

theorem lambdas_eq (u : CodeUnit) :
    u.lambdas = (if u.isLambda then [u] else []) ++ u.nested.flatMap lambdas := by
  have hamong : ∀ cs : List (Constant CodeUnit),
      lambdasAmong cs = (unitsOf cs).flatMap lambdas := by
    intro cs
    induction cs with
    | nil => rfl
    | cons c cs ih =>
      cases c with
      | literal l => rw [lambdasAmong, unitsOf_literal, ih]
      | unit u => rw [lambdasAmong, unitsOf_unit, List.flatMap_cons, ih]
  cases u with
  | mk info consts => rw [lambdas, hamong, nested_eq]

end CodeUnit

/-! ## Lambdas that drafts make -/

namespace Draft

/-- The lambdas that a draft makes, at any depth, each as its shape and its code. -/
def lambdas : Draft → Multiset (UnitShape × Draft)
  | .seq first second => first.lambdas + second.lambdas
  | .block body => body.lambdas
  | .loop body => body.lambdas
  | .unit shape body =>
    (if shape.name = Reading.lambdaName then {(shape, body)} else 0) + body.lambdas
  | _ => 0

theorem lambdas_unit (shape : UnitShape) (body : Draft) : (unit shape body).lambdas =
    (if shape.name = Reading.lambdaName then {(shape, body)} else 0) + body.lambdas := rfl

/-- They are found in the units that the draft makes. -/
theorem lambdas_eq_sum (d : Draft) :
    d.lambdas = (d.units.map fun part => (unit part.1 part.2).lambdas).sum := by
  induction d with
  | seq first second ihfirst ihsecond =>
    have hunits : (seq first second).units = first.units ++ second.units :=
      units_append first second
    rw [hunits, List.map_append, List.sum_append, ← ihfirst, ← ihsecond, lambdas]
  | block body ih => exact ih
  | loop body ih => exact ih
  | unit shape body => simp [units, unit?, parts]
  | _ => rfl

variable {filename : String}

/-- Units made of parts have the lambdas made of the lambdas of the parts, if each has. -/
theorem rel_lambdas_of_forall₂ {ps : List (UnitShape × Draft)} {us : List CodeUnit}
    (h : List.Forall₂ (fun part v => Multiset.Rel (fun p w => p.2.toUnit filename p.1 = .ok w)
      (unit part.1 part.2).lambdas v.lambdas) ps us) :
    Multiset.Rel (fun p w => p.2.toUnit filename p.1 = .ok w)
      (ps.map fun part => (unit part.1 part.2).lambdas).sum (us.flatMap CodeUnit.lambdas) := by
  induction h with
  | nil => exact Multiset.Rel.zero
  | cons hpart _ ih =>
    rw [List.map_cons, List.sum_cons, List.flatMap_cons, ← Multiset.coe_add]
    exact hpart.add ih

/-- The lambdas among the units of a draft are made of its lambdas, one of each. -/
theorem rel_lambdas_of_toUnit {shape : UnitShape} {body : Draft} {u : CodeUnit}
    (h : body.toUnit filename shape = .ok u) :
    Multiset.Rel (fun p w => p.2.toUnit filename p.1 = .ok w)
      (unit shape body).lambdas u.lambdas := by
  induction u using CodeUnit.induction generalizing shape body with
  | unit u ih =>
    rw [lambdas_unit, CodeUnit.lambdas_eq, ← Multiset.coe_add]
    apply Multiset.Rel.add
    · have hlambda := isLambda_of_toUnit h
      by_cases hname : shape.name = Reading.lambdaName
      · rw [if_pos hname, if_pos (by rw [hlambda, hname, beq_self_eq_true])]
        show Multiset.Rel _ ((shape, body) ::ₘ 0) (u ::ₘ 0)
        exact Multiset.Rel.cons h Multiset.Rel.zero
      · rw [if_neg hname, if_neg (by simp [hlambda, hname])]
        exact Multiset.Rel.zero
    · rw [lambdas_eq_sum]
      apply rel_lambdas_of_forall₂
      have hnested := nested_of_toUnit h
      refine List.forall₂_iff_get.mpr ⟨hnested.length_eq, ?_⟩
      intro i hi hi'
      exact ih _ (List.get_mem _ _) (hnested.get hi hi')

end Draft

end UnitAtlas
