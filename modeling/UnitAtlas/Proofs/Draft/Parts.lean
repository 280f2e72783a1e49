-- The parts that a draft is made of, out of their blocks and loops. Among them are the units that
-- it makes, and these are the units nested in the one that the draft becomes, in the same order.
import Mathlib.Data.List.Forall2
import UnitAtlas.Proofs.Draft.Growth
import UnitAtlas.Proofs.Unit.Definitions

namespace UnitAtlas.Draft

open Builder

/-! ## Parts -/

/-- The parts of a draft that hold no other parts, in order. -/
def parts : Draft → List Draft
  | .skip => []
  | .seq first second => first.parts ++ second.parts
  | .block body => body.parts
  | .loop body => body.parts
  | d => [d]

@[simp] theorem parts_skip : skip.parts = [] := rfl

@[simp] theorem parts_append (first second : Draft) :
    (first ++ second).parts = first.parts ++ second.parts := rfl

@[simp] theorem parts_block (body : Draft) : (block body).parts = body.parts := rfl

@[simp] theorem parts_loop (body : Draft) : (loop body).parts = body.parts := rfl

@[simp] theorem parts_line (n : UInt32) : (line n).parts = [line n] := rfl

@[simp] theorem parts_plain (op : Opcode.Plain) : (plain op).parts = [plain op] := rfl

@[simp] theorem parts_counted (op : Opcode.Counted) (n : Nat) :
    (counted op n).parts = [counted op n] := rfl

@[simp] theorem parts_literal (l : Literal) : (literal l).parts = [literal l] := rfl

@[simp] theorem parts_access (what : Opcode.Access) (name : String) :
    (access what name).parts = [access what name] := rfl

@[simp] theorem parts_unit (shape : UnitShape) (body : Draft) :
    (unit shape body).parts = [unit shape body] := rfl

@[simp] theorem parts_all (drafts : List Draft) : (all drafts).parts = drafts.flatMap parts := by
  induction drafts with
  | nil => rfl
  | cons d ds ih =>
    rw [List.flatMap_cons, ← ih]
    rfl

/-! ## Drafts that can be assembled -/

/-- Nothing in the draft fails, nor in the units that it makes. -/
def Whole : Draft → Prop
  | .seq first second => first.Whole ∧ second.Whole
  | .fail _ => False
  | .block body => body.Whole
  | .loop body => body.Whole
  | .unit _ body => body.Whole
  | _ => True

@[simp] theorem whole_skip : skip.Whole := trivial

@[simp] theorem whole_append {first second : Draft} :
    (first ++ second).Whole ↔ first.Whole ∧ second.Whole := Iff.rfl

@[simp] theorem whole_block {body : Draft} : (block body).Whole ↔ body.Whole := Iff.rfl

@[simp] theorem whole_loop {body : Draft} : (loop body).Whole ↔ body.Whole := Iff.rfl

@[simp] theorem whole_unit {shape : UnitShape} {body : Draft} :
    (unit shape body).Whole ↔ body.Whole := Iff.rfl

@[simp] theorem whole_all {drafts : List Draft} :
    (all drafts).Whole ↔ ∀ d ∈ drafts, d.Whole := by
  induction drafts with
  | nil => simp [all]
  | cons d ds ih =>
    rw [List.forall_mem_cons, ← ih]
    rfl

/-- A part that a draft needs is there. -/
theorem whole_need {α : Type} {part : Option α} {e : DraftError} {use : α → Draft} :
    (need part e use).Whole ↔ ∃ a, part = some a ∧ (use a).Whole := by
  cases part with
  | none =>
    constructor
    · intro h
      exact h.elim
    · rintro ⟨a, ha, -⟩
      cases ha
  | some a => simp [need]

/-- A draft can be assembled when its parts can. -/
theorem whole_iff_parts {d : Draft} : d.Whole ↔ ∀ q ∈ d.parts, q.Whole := by
  induction d with
  | skip => simp
  | seq first second ihfirst ihsecond =>
    show first.Whole ∧ second.Whole ↔ ∀ q ∈ first.parts ++ second.parts, q.Whole
    rw [List.forall_mem_append, ihfirst, ihsecond]
  | block body ih => exact ih
  | loop body ih => exact ih
  | _ => exact List.forall_mem_singleton.symm

theorem whole_of_build {filename : String} {d : Draft} {b b' : Builder}
    (h : d.build filename b = .ok b') : d.Whole := by
  refine build_induction (M := fun d _ _ => d.Whole) ?_ ?_ ?_ ?_ ?_ d b b' h
  · intro d b b' hsmall _
    cases d <;> trivial
  · intro first second b middle b' hfirst hsecond _
    exact ⟨hfirst, hsecond⟩
  · intro body b inner hbody
    exact hbody
  · intro body b inner hbody _
    exact hbody
  · intro shape body b inner u operand b' hbody _ _ _ _
    exact hbody

theorem whole_of_toUnit {filename : String} {shape : UnitShape} {body : Draft} {u : CodeUnit}
    (h : body.toUnit filename shape = .ok u) : body.Whole := by
  obtain ⟨b, hb, -⟩ := toUnit_eq_ok.mp h
  exact whole_of_build hb

/-! ## Units -/

/-- The unit that a part makes. -/
def unit? : Draft → Option (UnitShape × Draft)
  | .unit shape body => some (shape, body)
  | _ => none

/-- The units that a draft makes itself, each as its shape and its body. -/
def units (d : Draft) : List (UnitShape × Draft) := d.parts.filterMap unit?

@[simp] theorem units_append (first second : Draft) :
    (first ++ second).units = first.units ++ second.units := by
  simp [units]

theorem units_of_isSmall {d : Draft} (h : d.IsSmall) : d.units = [] := by
  cases d <;> first | rfl | exact h.elim

/-- The nested units of a unit are made of the units of its draft, one for each, in order. -/
theorem nested_of_toUnit {filename : String} {shape : UnitShape} {body : Draft} {u : CodeUnit}
    (h : body.toUnit filename shape = .ok u) :
    List.Forall₂ (fun p v => p.2.toUnit filename p.1 = .ok v) body.units u.nested := by
  obtain ⟨b, hb, hfinish⟩ := toUnit_eq_ok.mp h
  obtain ⟨-, rfl⟩ := finish_eq_ok hfinish
  have hadded : ∃ us, CodeUnit.unitsOf b.consts =
      CodeUnit.unitsOf (Builder.start shape).consts ++ us ∧
      List.Forall₂ (fun p v => p.2.toUnit filename p.1 = .ok v) body.units us := by
    refine build_induction (M := fun d b b' => ∃ us,
      CodeUnit.unitsOf b'.consts = CodeUnit.unitsOf b.consts ++ us ∧
      List.Forall₂ (fun p v => p.2.toUnit filename p.1 = .ok v) d.units us)
      ?_ ?_ ?_ ?_ ?_ body _ b hb
    · intro d b b' hsmall hstep
      refine ⟨[], ?_, ?_⟩
      · rw [Step.unitsOf_consts hstep, List.append_nil]
      · rw [units_of_isSmall hsmall]
        exact List.Forall₂.nil
    · rintro first second b middle b' ⟨us, hus, hfirst⟩ ⟨vs, hvs, hsecond⟩ _
      refine ⟨us ++ vs, ?_, ?_⟩
      · rw [hvs, hus, List.append_assoc]
      · exact units_append first second ▸ List.rel_append hfirst hsecond
    · rintro body b inner ⟨us, hus, hbody⟩
      refine ⟨us, ?_, hbody⟩
      rw [consts_closeBlock, hus]
      rfl
    · rintro body b inner ⟨us, hus, hbody⟩ _
      exact ⟨us, hus, hbody⟩
    · intro shape body b inner v operand b' _ hinner hv _ hconsts
      refine ⟨[v], ?_, ?_⟩
      · rw [hconsts, CodeUnit.unitsOf, CodeUnit.unitsOf, List.filterMap_append]
        rfl
      · exact List.Forall₂.cons (toUnit_eq_ok.mpr ⟨inner, hinner, hv⟩) List.Forall₂.nil
  obtain ⟨us, hus, hforall⟩ := hadded
  rw [unitsOf_start, List.nil_append] at hus
  rw [CodeUnit.nested_eq]
  exact hus ▸ hforall

/-- Every nested unit is made of one of the units of the draft. -/
theorem exists_of_mem_nested {filename : String} {shape : UnitShape} {body : Draft} {u v : CodeUnit}
    (h : body.toUnit filename shape = .ok u) (hv : v ∈ u.nested) :
    ∃ inner code, .unit inner code ∈ body.parts ∧ code.toUnit filename inner = .ok v := by
  have hnested := nested_of_toUnit h
  obtain ⟨i, hi⟩ := List.getElem?_of_mem hv
  obtain ⟨hlt, rfl⟩ := List.getElem?_eq_some_iff.mp hi
  have hlt' : i < body.units.length := by rw [hnested.length_eq]; exact hlt
  obtain ⟨part, hpart, hunit⟩ := List.mem_filterMap.mp (List.getElem_mem hlt')
  have hmade := hnested.get hlt' hlt
  cases part <;> try cases hunit
  rename_i inner code
  have hpair : body.units[i] = (inner, code) := (Option.some.inj hunit).symm
  refine ⟨inner, code, hpart, ?_⟩
  simpa only [List.get_eq_getElem, hpair] using hmade

/-- A unit tells the name and the first line of its shape. -/
theorem info_of_toUnit {filename : String} {shape : UnitShape} {body : Draft} {u : CodeUnit}
    (h : body.toUnit filename shape = .ok u) :
    u.info.name = shape.name ∧ u.info.firstLine = shape.firstLine := by
  obtain ⟨b, -, hfinish⟩ := toUnit_eq_ok.mp h
  obtain ⟨-, rfl⟩ := finish_eq_ok hfinish
  exact ⟨rfl, rfl⟩

theorem isLambda_of_toUnit {filename : String} {shape : UnitShape} {body : Draft} {u : CodeUnit}
    (h : body.toUnit filename shape = .ok u) :
    u.isLambda = (shape.name == Reading.lambdaName) := by
  rw [CodeUnit.isLambda, (info_of_toUnit h).1]

end UnitAtlas.Draft
