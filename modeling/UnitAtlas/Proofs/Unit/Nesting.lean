-- Where a unit stands in the tree of units below another: its address says, level by level,
-- which of the nested units to take. The order of lists of numbers puts an address before all
-- that goes on from it, and otherwise the earlier turn first; in that order the addresses give
-- every unit before its own nested units, and those in the order of the constant table.
import Mathlib.Data.List.Lex
import UnitAtlas.Unit.Basic

namespace UnitAtlas.CodeUnit

/-! ## The units of a constant table -/

/-- The units that a stretch of a constant table holds. -/
def unitsOf (cs : List (Constant CodeUnit)) : List CodeUnit := cs.filterMap Constant.unit?

@[simp] theorem unitsOf_nil : unitsOf [] = [] := rfl

@[simp] theorem unitsOf_literal (l : Literal) (cs : List (Constant CodeUnit)) :
    unitsOf (.literal l :: cs) = unitsOf cs := rfl

@[simp] theorem unitsOf_unit (u : CodeUnit) (cs : List (Constant CodeUnit)) :
    unitsOf (.unit u :: cs) = u :: unitsOf cs := rfl

@[simp] theorem mem_unitsOf {u : CodeUnit} {cs : List (Constant CodeUnit)} :
    u ∈ unitsOf cs ↔ .unit u ∈ cs := by
  unfold unitsOf
  rw [List.mem_filterMap]
  constructor
  · rintro ⟨c, hc, hu⟩
    cases c with
    | literal l => cases hu
    | unit v => cases hu; exact hc
  · intro h
    exact ⟨_, h, rfl⟩

theorem nested_eq (u : CodeUnit) : u.nested = unitsOf u.consts := rfl

mutual
/-- What passes from the nested units to the unit around them holds for all units. -/
theorem induction {P : CodeUnit → Prop}
    (unit : ∀ u : CodeUnit, (∀ v ∈ u.nested, P v) → P u) : ∀ u, P u
  | ⟨info, consts⟩ => unit ⟨info, consts⟩ (inductionOn unit consts)

theorem inductionOn {P : CodeUnit → Prop}
    (unit : ∀ u : CodeUnit, (∀ v ∈ u.nested, P v) → P u) :
    ∀ cs : List (Constant CodeUnit), ∀ v ∈ unitsOf cs, P v
  | [], v, hv => by simp at hv
  | .literal _ :: cs, v, hv => inductionOn unit cs v hv
  | .unit u :: cs, v, hv => by
    rcases List.mem_cons.mp hv with h | hv
    · exact h ▸ induction unit u
    · exact inductionOn unit cs v hv
end

/-! ## Addresses -/

/-- The unit at an address. -/
def at? (u : CodeUnit) : List Nat → Option CodeUnit
  | [] => some u
  | i :: rest => u.nested[i]?.bind fun v => v.at? rest

@[simp] theorem at?_nil (u : CodeUnit) : u.at? [] = some u := rfl

@[simp] theorem at?_cons (u : CodeUnit) (i : Nat) (rest : List Nat) :
    u.at? (i :: rest) = u.nested[i]?.bind fun v => v.at? rest := rfl

/-- An address below one of the nested units. -/
theorem at?_of_nested {u v : CodeUnit} {i : Nat} (h : u.nested[i]? = some v) (rest : List Nat) :
    u.at? (i :: rest) = v.at? rest := by
  rw [at?_cons, h, Option.bind_some]

/-- Where the rest of a constant table begins with a unit, its turn has come. -/
theorem getElem?_of_drop {u v : CodeUnit} {next : Nat} {cs : List (Constant CodeUnit)}
    (h : u.nested.drop next = unitsOf (.unit v :: cs)) :
    u.nested[next]? = some v ∧ u.nested.drop (next + 1) = unitsOf cs := by
  constructor
  · rw [← List.head?_drop, h, unitsOf_unit, List.head?_cons]
  · rw [← List.tail_drop, h, unitsOf_unit, List.tail_cons]

/-- Something holds of a unit and of all units below it. -/
def Throughout (P : CodeUnit → Prop) (u : CodeUnit) : Prop := ∀ a v, u.at? a = some v → P v

theorem throughout_iff {P : CodeUnit → Prop} {u : CodeUnit} :
    u.Throughout P ↔ P u ∧ ∀ v ∈ u.nested, v.Throughout P := by
  constructor
  · intro h
    refine ⟨h [] u rfl, ?_⟩
    intro v hv a w hw
    obtain ⟨i, hi⟩ := List.getElem?_of_mem hv
    exact h (i :: a) w (by rw [at?_of_nested hi, hw])
  · rintro ⟨hu, hnested⟩ a w hw
    cases a with
    | nil => cases hw; exact hu
    | cons i rest =>
      obtain ⟨v, hv, hw⟩ := Option.bind_eq_some_iff.mp hw
      exact hnested v (List.mem_of_getElem? hv) rest w hw

theorem Throughout.imp {P Q : CodeUnit → Prop} {u : CodeUnit} (h : u.Throughout P)
    (hPQ : ∀ v, P v → Q v) : u.Throughout Q :=
  fun a v hv => hPQ v (h a v hv)

/-! ## All addresses in order -/

mutual
/-- The addresses of the units below a unit. -/
def inside : CodeUnit → List (List Nat)
  | ⟨_, consts⟩ => insideFrom 0 consts

/-- The addresses that a stretch of the constant table adds, when `next` units stand before it. -/
def insideFrom (next : Nat) : List (Constant CodeUnit) → List (List Nat)
  | [] => []
  | .literal _ :: cs => insideFrom next cs
  | .unit u :: cs => ([] :: inside u).map (next :: ·) ++ insideFrom (next + 1) cs
end

/-- The addresses of a unit itself and of all below it. -/
def addresses (u : CodeUnit) : List (List Nat) := [] :: u.inside

theorem inside_eq (u : CodeUnit) : u.inside = insideFrom 0 u.consts := by
  cases u
  rw [inside]

@[simp] theorem insideFrom_unit (next : Nat) (u : CodeUnit) (cs : List (Constant CodeUnit)) :
    insideFrom next (.unit u :: cs) = u.addresses.map (next :: ·) ++ insideFrom (next + 1) cs := by
  rw [insideFrom, addresses]

@[simp] theorem insideFrom_literal (next : Nat) (l : Literal) (cs : List (Constant CodeUnit)) :
    insideFrom next (.literal l :: cs) = insideFrom next cs := by
  rw [insideFrom]

/-- An address in a stretch goes through one of its units. -/
theorem mem_insideFrom {next : Nat} {cs : List (Constant CodeUnit)} {a : List Nat} :
    a ∈ insideFrom next cs ↔
      ∃ i v rest, a = (next + i) :: rest ∧ (unitsOf cs)[i]? = some v ∧ rest ∈ v.addresses := by
  induction cs generalizing next with
  | nil => simp [insideFrom]
  | cons c cs ih =>
    cases c with
    | literal l => rw [insideFrom_literal, ih, unitsOf_literal]
    | unit u =>
      rw [insideFrom_unit, List.mem_append, List.mem_map, ih, unitsOf_unit]
      constructor
      · rintro (⟨rest, hrest, rfl⟩ | ⟨i, v, rest, rfl, hi, hrest⟩)
        · exact ⟨0, u, rest, rfl, rfl, hrest⟩
        · exact ⟨i + 1, v, rest, by rw [Nat.add_right_comm, Nat.add_assoc], hi, hrest⟩
      · rintro ⟨i, v, rest, rfl, hi, hrest⟩
        cases i with
        | zero => cases hi; exact Or.inl ⟨rest, hrest, rfl⟩
        | succ i =>
          exact Or.inr ⟨i, v, rest, by rw [Nat.add_right_comm, Nat.add_assoc], hi, hrest⟩

/-- The addresses are those at which there is a unit. -/
theorem mem_addresses {u : CodeUnit} {a : List Nat} : a ∈ u.addresses ↔ (u.at? a).isSome := by
  induction u using induction generalizing a with
  | unit u ih =>
    rw [addresses, inside_eq, List.mem_cons, mem_insideFrom, ← nested_eq]
    cases a with
    | nil => simp
    | cons i rest =>
      rw [at?_cons]
      constructor
      · rintro (h | ⟨j, v, rest, h, hv, hrest⟩)
        · cases h
        · rw [Nat.zero_add] at h
          cases h
          rw [hv, Option.bind_some]
          exact (ih v (List.mem_of_getElem? hv)).mp hrest
      · intro h
        obtain ⟨v, hv⟩ := Option.isSome_iff_exists.mp (Option.isSome_of_isSome_bind h)
        rw [hv, Option.bind_some] at h
        refine Or.inr ⟨i, v, rest, by rw [Nat.zero_add], hv, ?_⟩
        exact (ih v (List.mem_of_getElem? hv)).mpr h

theorem pairwise_insideFrom {next : Nat} {cs : List (Constant CodeUnit)}
    (h : ∀ v ∈ unitsOf cs, v.addresses.Pairwise (· < ·)) :
    (insideFrom next cs).Pairwise (· < ·) := by
  induction cs generalizing next with
  | nil => simp [insideFrom]
  | cons c cs ih =>
    cases c with
    | literal l => exact insideFrom_literal next l cs ▸ ih h
    | unit u =>
      obtain ⟨hu, hrest⟩ := List.forall_mem_cons.mp h
      rw [insideFrom_unit, List.pairwise_append]
      refine ⟨?_, ih hrest, ?_⟩
      · refine List.Pairwise.map _ ?_ hu
        intro a b hab
        exact List.cons_lt_cons_iff.mpr (Or.inr ⟨rfl, hab⟩)
      · -- Whatever comes later takes a later turn at this level.
        intro a ha b hb
        obtain ⟨a, -, rfl⟩ := List.mem_map.mp ha
        obtain ⟨i, v, b, rfl, -, -⟩ := mem_insideFrom.mp hb
        exact List.cons_lt_cons_iff.mpr (Or.inl (by omega))

/-- Each address is before the next. -/
theorem pairwise_addresses (u : CodeUnit) : u.addresses.Pairwise (· < ·) := by
  induction u using induction with
  | unit u ih =>
    rw [addresses, inside_eq, List.pairwise_cons]
    refine ⟨?_, pairwise_insideFrom ih⟩
    intro a ha
    obtain ⟨i, v, rest, rfl, -, -⟩ := mem_insideFrom.mp ha
    exact List.nil_lt_cons _ _

end UnitAtlas.CodeUnit
