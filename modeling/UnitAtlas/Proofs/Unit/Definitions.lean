-- The units below another that are no lambdas, as a forest: each stands below the nearest one
-- around it, and lambdas between them do not count. A place in the forest says level by level
-- which of these units to take; it leads to an address among all units.
import UnitAtlas.Proofs.Unit.Nesting
import UnitAtlas.Reading.Expression

namespace UnitAtlas.CodeUnit

/-- Lambdas are told by their name. -/
def isLambda (u : CodeUnit) : Bool := u.info.name == Reading.lambdaName

mutual
/-- The addresses of the nearest units below a unit that are no lambdas, in order. -/
def nearest : CodeUnit → List (List Nat)
  | ⟨_, consts⟩ => nearestFrom 0 consts

/-- The addresses that a stretch of the constant table adds, when `next` units stand before it. -/
def nearestFrom (next : Nat) : List (Constant CodeUnit) → List (List Nat)
  | [] => []
  | .literal _ :: cs => nearestFrom next cs
  | .unit u :: cs =>
    (if isLambda u then nearest u else [[]]).map (next :: ·) ++ nearestFrom (next + 1) cs
end

/-- The address of the unit at a place of the forest. -/
def definedAt? (u : CodeUnit) : List Nat → Option (List Nat)
  | [] => none
  | i :: rest =>
    u.nearest[i]?.bind fun b =>
      if rest.isEmpty then some b
      else (u.at? b).bind fun v => (v.definedAt? rest).map (b ++ ·)

/-! ## The forest, level by level -/

/-- The same for a list of units. -/
def nearestAmong (next : Nat) : List CodeUnit → List (List Nat)
  | [] => []
  | u :: us =>
    (if isLambda u then nearest u else [[]]).map (next :: ·) ++ nearestAmong (next + 1) us

theorem nearest_eq (u : CodeUnit) : u.nearest = nearestAmong 0 u.nested := by
  have hfrom : ∀ (cs : List (Constant CodeUnit)) (next : Nat),
      nearestFrom next cs = nearestAmong next (unitsOf cs) := by
    intro cs
    induction cs with
    | nil => exact fun _ => rfl
    | cons c cs ih =>
      intro next
      cases c with
      | literal l => rw [nearestFrom, unitsOf_literal, ih]
      | unit u => rw [nearestFrom, unitsOf_unit, nearestAmong, ih]
  cases u with
  | mk info consts => exact hfrom consts 0

theorem nearestAmong_append (next : Nat) (us vs : List CodeUnit) :
    nearestAmong next (us ++ vs) =
      nearestAmong next us ++ nearestAmong (next + us.length) vs := by
  induction us generalizing next with
  | nil => rfl
  | cons u us ih =>
    rw [List.cons_append, nearestAmong, nearestAmong, ih, List.append_assoc, List.length_cons,
      Nat.add_assoc, Nat.add_comm 1]

/-- A unit that is no lambda is near itself. -/
theorem nearestAmong_cons_of_not_isLambda {u : CodeUnit} (h : u.isLambda = false) (next : Nat)
    (us : List CodeUnit) : nearestAmong next (u :: us) = [next] :: nearestAmong (next + 1) us := by
  rw [nearestAmong, h]
  rfl

/-- Lambdas with only lambdas below them have nothing near. -/
theorem nearestAmong_eq_nil {us : List CodeUnit}
    (h : ∀ u ∈ us, u.isLambda = true ∧ u.nearest = []) (next : Nat) :
    nearestAmong next us = [] := by
  induction us generalizing next with
  | nil => rfl
  | cons u us ih =>
    obtain ⟨⟨hlambda, hnone⟩, hus⟩ := List.forall_mem_cons.mp h
    rw [nearestAmong, if_pos hlambda, hnone, ih hus]
    rfl

/-- Units that are no lambdas are near. -/
theorem mem_nearestAmong {us : List CodeUnit} {v : CodeUnit} {j : Nat} (h : us[j]? = some v)
    (hv : v.isLambda = false) (next : Nat) : [next + j] ∈ nearestAmong next us := by
  induction us generalizing next j with
  | nil => cases h
  | cons u us ih =>
    rw [nearestAmong, List.mem_append]
    cases j with
    | zero =>
      cases h
      rw [hv]
      exact Or.inl List.mem_cons_self
    | succ j =>
      have hlater := ih h (next + 1)
      rw [Nat.add_assoc, Nat.add_comm 1] at hlater
      exact Or.inr hlater

theorem at?_singleton (u : CodeUnit) (i : Nat) : u.at? [i] = u.nested[i]? := by
  rw [at?_cons]
  cases u.nested[i]? <;> rfl

/-- What stands below an address is found from there. -/
theorem at?_append (u : CodeUnit) (a b : List Nat) :
    u.at? (a ++ b) = (u.at? a).bind fun v => v.at? b := by
  induction a generalizing u with
  | nil => rfl
  | cons i a ih =>
    rw [List.cons_append, at?_cons, at?_cons, Option.bind_assoc]
    congr 1
    funext v
    exact ih v

theorem at?_concat {u p : CodeUnit} {a : List Nat} (h : u.at? a = some p) (i : Nat) :
    u.at? (a ++ [i]) = p.nested[i]? := by
  rw [at?_append, h, Option.bind_some, at?_singleton]

theorem Throughout.nested {P : CodeUnit → Prop} {u p v : CodeUnit} {a : List Nat}
    (h : u.Throughout P) (hp : u.at? a = some p) (hv : v ∈ p.nested) : P v := by
  obtain ⟨i, hi⟩ := List.getElem?_of_mem hv
  exact h (a ++ [i]) v ((at?_concat hp i).trans hi)

end UnitAtlas.CodeUnit
